import Os2024.FileSystem.Crash

/-! # Cluster writes are not atomic

The drive stores blocks, and a cluster is four of them. Power lost in the middle of
`write_clusters` leaves a cluster whose first blocks are new and whose last blocks
are old. Cells and directory entries do not cross a block, so such a cluster still
reads as a table of old and new ones, and nothing in use gets lost that an atomic
write would have kept.
-/

namespace Os2024.FileSystem
open Library.PackedLayout Library.BlockStore Library.LinkedCells Library.Runs

def tornCluster (k : ℕ) (old new : Cluster) : Cluster :=
  clusterBlocks fun i => if i.val < k then clusterBlocks.symm new i else clusterBlocks.symm old i

/-- The first `k` blocks of a cluster write are on the disk. -/
def tornWrite (disk : Disk) (w : ClusterWrite) (k : ℕ) : Disk :=
  writeRange disk (clusterToLba w.clusterNumber).toNat fun i : Fin 4 =>
    if i.val < k then clusterBlocks.symm w.data i
    else readRange disk (clusterToLba w.clusterNumber).toNat 4 i

def tornReplay (disk : Disk) : List ClusterWrite → ℕ → Disk
  | [], _ => disk
  | w :: ws, n =>
    if n < 4 then tornWrite disk w n else tornReplay (writeClusters w.data w.clusterNumber disk) ws (n - 4)

theorem tornWrite_apply (disk : Disk) (w : ClusterWrite) {k : ℕ} (hk : k ≤ 4) (b : ℕ) :
    tornWrite disk w k b = writeRange disk (clusterToLba w.clusterNumber).toNat
      (fun i : Fin k => clusterBlocks.symm w.data (Fin.castLE hk i)) b := by
  rw [tornWrite]
  generalize (clusterToLba w.clusterNumber).toNat = lba
  rw [writeRange, writeRange]
  by_cases hin : lba ≤ b ∧ b - lba < k
  · have h4 : lba ≤ b ∧ b - lba < 4 := ⟨hin.1, by omega⟩
    rw [dif_pos h4, dif_pos hin]
    exact if_pos hin.2
  · rw [dif_neg hin]
    by_cases hrest : lba ≤ b ∧ b - lba < 4
    · have hge : ¬b - lba < k := fun h => hin ⟨hrest.1, h⟩
      rw [dif_pos hrest, if_neg hge, readRange, Nat.add_sub_cancel' hrest.1]
    · rw [dif_neg hrest]

theorem diskVolume_tornWrite (disk : Disk) (c : Cell) (x : Cluster) (k : ℕ) :
    diskVolume (tornWrite disk ⟨c.number, x⟩ k) =
      Function.update (diskVolume disk) c (tornCluster k (diskVolume disk c) x) := by
  have hwrite : tornWrite disk ⟨c.number, x⟩ k =
      writeClusters (tornCluster k (diskVolume disk c) x) c.number disk := by
    rw [writeClusters, tornCluster, Equiv.symm_apply_apply, diskVolume, readClusters,
      Equiv.symm_apply_apply]
    rfl
  rw [hwrite, diskVolume_writeClusters]

theorem tornCluster_self (k : ℕ) (x : Cluster) : tornCluster k x x = x := by
  simp [tornCluster]

/-- Byte by byte, a torn cluster is new before the tear and old behind it. -/
theorem tornCluster_eq (k : ℕ) (old new : Cluster) :
    tornCluster k old new = fun b => if b.val < 512 * k then new b else old b := by
  apply clusterBlocks.symm.injective
  funext i
  rw [tornCluster, Equiv.symm_apply_apply]
  exact (array_symm_splice (k := 4) (bytes 512) k old new i).symm

/-- A cell is old or new as a whole. -/
theorem fat_tornCluster (k : ℕ) (old new : Cluster) (c : Cell) :
    fatLayout.symm (tornCluster k old new) c =
      if c.val < 128 * k then fatLayout.symm new c else fatLayout.symm old c := by
  have hk : 512 * k = 4 * (128 * k) := by omega
  rw [tornCluster_eq, hk, fatLayout]
  exact array_symm_splice (k := 512) word (128 * k) old new c

/-- And so is a directory entry. -/
theorem table_tornCluster (k : ℕ) (old new : Cluster) (i : Fin 64) :
    tableLayout.symm (tornCluster k old new) i =
      if i.val < 16 * k then tableLayout.symm new i else tableLayout.symm old i := by
  have hk : 512 * k = 32 * (16 * k) := by omega
  rw [tornCluster_eq, hk, tableLayout]
  exact array_symm_splice (k := 64) DirectoryEntry.layout (16 * k) old new i

/-- A table that changes in a single entry is never seen half written. -/
theorem tornCluster_table (k : ℕ) (t : DirectoryTable) (i : Fin 64) (e : DirectoryEntry) :
    tornCluster k (tableLayout t) (tableLayout (Function.update t i e)) =
      if i.val < 16 * k then tableLayout (Function.update t i e) else tableLayout t := by
  apply tableLayout.symm.injective
  rw [apply_ite tableLayout.symm, Equiv.symm_apply_apply, Equiv.symm_apply_apply]
  funext j
  rw [table_tornCluster, Equiv.symm_apply_apply, Equiv.symm_apply_apply]
  by_cases hj : j = i
  · subst j
    rw [apply_ite (fun t : DirectoryTable => t i)]
  · rw [Function.update_of_ne hj, ite_self]
    split_ifs
    · rw [Function.update_of_ne hj]
    · rfl

variable {v : Volume} {disk : Disk}

/-- What agrees before a write and after it agrees in the middle of it. -/
theorem agrees_tornWrite {c : Cell} {x : Cluster} (h : v.Agrees (diskVolume disk))
    (h' : v.Agrees (diskVolume (writeClusters x c.number disk))) (k : ℕ) :
    v.Agrees (diskVolume (tornWrite disk ⟨c.number, x⟩ k)) := by
  rw [diskVolume_writeClusters] at h'
  rw [diskVolume_tornWrite]
  constructor
  · intro d hused
    have hold := h.clusters d hused
    have hnew := h'.clusters d hused
    by_cases hd : d = c
    · subst d
      rw [Function.update_self] at hnew ⊢
      rw [hold, hnew, tornCluster_self]
    · rw [Function.update_of_ne hd, hold]
  · intro d hused
    have hold := h.cells d hused
    have hnew := h'.cells d hused
    by_cases hc : c = 1
    · subst c
      rw [Volume.fat, Function.update_self] at hnew ⊢
      rw [fat_tornCluster]
      split_ifs
      · exact hnew
      · exact hold
    · rw [Volume.fat, Function.update_of_ne (Ne.symm hc)]
      exact hold

theorem Harmless.agrees_torn {w : ClusterWrite} (h : Harmless v w) (hv : v.WellFormed)
    (hd : v.Agrees (diskVolume disk)) (k : ℕ) : v.Agrees (diskVolume (tornWrite disk w k)) := by
  have hfull := h.agrees hv hd
  obtain ⟨n, data⟩ := w
  obtain ⟨c, hc, -⟩ := h
  obtain rfl : n = c.number := hc
  exact agrees_tornWrite hd hfull k

/-- Harmless writes keep everything in use, also when the last one is torn. -/
theorem agrees_tornReplay (hv : v.WellFormed) {ws : List ClusterWrite} (hd : v.Agrees (diskVolume disk))
    (hws : ∀ w ∈ ws, Harmless v w) (n : ℕ) : v.Agrees (diskVolume (tornReplay disk ws n)) := by
  induction ws generalizing disk n with
  | nil => exact hd
  | cons w ws ih =>
    have hw := hws w List.mem_cons_self
    rw [tornReplay]
    split_ifs
    · exact hw.agrees_torn hv hd n
    · exact ih (hw.agrees hv hd) (fun w' hw' => hws w' (List.mem_cons_of_mem w hw')) (n - 4)

theorem tornReplay_append (ws ws' : List ClusterWrite) (n : ℕ) :
    tornReplay disk (ws ++ ws') n =
      if n < 4 * ws.length then tornReplay disk ws n
      else tornReplay (replay disk ws) ws' (n - 4 * ws.length) := by
  induction ws generalizing disk n with
  | nil => rfl
  | cons w ws ih =>
    rw [List.cons_append, tornReplay, tornReplay, List.length_cons, Nat.mul_succ]
    by_cases hn : n < 4
    · rw [if_pos hn, if_pos (by omega), if_pos hn]
    · rw [if_neg hn, if_neg hn, ih]
      by_cases hlt : n - 4 < 4 * ws.length
      · rw [if_pos hlt, if_pos (by omega)]
      · rw [if_neg hlt, if_neg (by omega), replay, replay, List.foldl_cons,
          show n - 4 - 4 * ws.length = n - (4 * ws.length + 4) by omega]

/-- The write that changes one entry of a table happens in one of its blocks. -/
theorem diskVolume_tornWrite_table {p : Cell} {t : DirectoryTable} (ht : (diskVolume disk).table p = t)
    (i : Fin 64) (e : DirectoryEntry) (k : ℕ) :
    diskVolume (tornWrite disk ⟨p.number, tableLayout (Function.update t i e)⟩ k) =
      if i.val < 16 * k then
        diskVolume (writeClusters (tableLayout (Function.update t i e)) p.number disk)
      else diskVolume disk := by
  have hp : diskVolume disk p = tableLayout t := by
    rw [← ht, Volume.table, Equiv.apply_symm_apply]
  rw [diskVolume_tornWrite, hp, tornCluster_table, diskVolume_writeClusters]
  split_ifs
  · rfl
  · rw [← hp, Function.update_eq_self]

/-- Wherever a call is cut, the disk agrees with one that a cut between two of its writes leaves. -/
theorem Effect.torn {p : Cell} {call : Call} {s s' : Storage} (h : Effect p call s s')
    (hs : s.Consistent) (hp : s.volume.Existing p) : ∃ ws, Wrote s s' ws ∧
      ∀ n, ∃ m, (diskVolume (replay s.disk (ws.take m))).Agrees
        (diskVolume (tornReplay s.disk ws n)) := by
  cases h with
  | unchanged => exact ⟨[], Wrote.refl s, fun n => ⟨0, .refl _⟩⟩
  | @linked mem request _ k c rest w =>
    obtain ⟨ws, hws, hharmless⟩ := (w.prepared hs mem).harmless hs (fun _ => w.reserved hs)
      (fun _ => w.unowned hs)
    have hall : Wrote s (writeResult mem request s p k c rest) _ := hws.writeClusters p.number _
    refine ⟨_, hall, fun n => ?_⟩
    rw [tornReplay_append]
    by_cases hn : n < 4 * ws.length
    · rw [if_pos hn]
      exact ⟨0, agrees_tornReplay hs.wellFormed (.refl s.volume) hharmless n⟩
    · rw [if_neg hn, tornReplay]
      have htable : (diskVolume (replay s.disk ws)).table p = s.volume.table p :=
        (agrees_replay hs.wellFormed (.refl s.volume) hharmless).table_eq hs.wellFormed hp
      split_ifs with hlast
      · rw [diskVolume_tornWrite_table htable]
        split_ifs
        · -- the entry is linked
          refine ⟨ws.length + 1, ?_⟩
          rw [List.take_of_length_le (by simp), replay, List.foldl_append]
          exact .refl _
        · refine ⟨ws.length, ?_⟩
          rw [List.take_left]
          exact .refl _
      · refine ⟨ws.length + 1, ?_⟩
        rw [List.take_of_length_le (by simp), replay, List.foldl_append]
        exact .refl _
  | @unlinked request _ _ k l hm w =>
    obtain ⟨ws, hws, hharmless⟩ := w.harmless hs
    refine ⟨_, hws, fun n => ?_⟩
    have hfirst : diskVolume (writeClusters (tableLayout (Function.update (s.volume.table p) k
        .zero)) p.number s.disk) = s.volume.setEntry p k .zero := diskVolume_writeClusters p _ _
    rw [tornReplay]
    split_ifs with hn
    · have htable : (diskVolume s.disk).table p = s.volume.table p := rfl
      rw [diskVolume_tornWrite_table htable]
      split_ifs
      · exact ⟨1, .refl _⟩
      · exact ⟨0, .refl _⟩
    · refine ⟨1, ?_⟩
      have hrest := agrees_tornReplay (w.removable.wellFormed hs.wellFormed)
        (by rw [hfirst]; exact .refl _) hharmless (n - 4)
      exact hfirst ▸ hrest

/-- What a cut inside a cluster write leaves agrees with what a cut between two writes leaves. -/
theorem torn_crash {s s₁ : Storage} {call : Call} (hs : Recoverable s) (h : ValidStep s call s₁)
    (n : ℕ) : ∃ m s'', CrashStep s (call, some m) s'' ∧
      s''.volume.Agrees (diskVolume (tornReplay s.disk (newWrites s s₁) n)) ∧
      reboot (tornReplay s.disk (newWrites s s₁) n) =
        ⟨(diskVolume (tornReplay s.disk (newWrites s s₁) n)).fat,
          tornReplay s.disk (newWrites s s₁) n, []⟩ := by
  obtain ⟨p, -, hp, heff⟩ := h.effect hs.toConsistent
  obtain ⟨ws, hws, hchange⟩ := heff.wrote hs.toConsistent
  obtain ⟨ws', hws', htorn⟩ := heff.torn hs.toConsistent hp
  obtain rfl : ws = ws' := hws.newWrites_eq.symm.trans hws'.newWrites_eq
  obtain ⟨m, hm⟩ := htorn n
  have hsigned := (hchange m).signed hs.toConsistent hp hs.signed
  have hsigned' : Signed (diskVolume (tornReplay s.disk ws n)) := by
    rw [Signed, hm.clusters 0 (.inl rfl)]
    exact hsigned
  have hcut : CrashStep s (call, some m) (reboot (replay s.disk (ws.take m))) :=
    ⟨s₁, h, by rw [hws.newWrites_eq]⟩
  rw [reboot_signed hsigned] at hcut
  rw [hws.newWrites_eq]
  exact ⟨m, _, hcut, hm, reboot_signed hsigned'⟩

/-- Recovery only looks at what is in use. -/
theorem Recoverable.of_agrees {s s' : Storage} (h : Recoverable s) (ha : s.volume.Agrees s'.volume)
    (hcached : s'.volume.fat = s'.clusterMap) : Recoverable s' where
  wellFormed := ha.wellFormed h.wellFormed
  cached := hcached
  signed := by
    rw [Signed, ha.clusters 0 (.inl rfl)]
    exact h.signed
  sized := by
    intro d i he
    have he' := (ha.liveEntry_iff h.wellFormed d i).mpr he
    rw [ha.table_eq h.wellFormed he'.existing]
    exact h.sized he'

theorem Recoverable.of_fields {s s' : Storage} (h : Recoverable s) (hmap : s'.clusterMap = s.clusterMap)
    (hdisk : s'.disk = s.disk) : Recoverable s' := by
  have hvolume : s'.volume = s.volume := congrArg diskVolume hdisk
  exact ⟨⟨hvolume ▸ h.wellFormed, hvolume ▸ hmap ▸ h.cached⟩, hvolume ▸ h.signed, hvolume ▸ h.sized⟩

theorem Stored.of_agrees {v v' : Volume} {p : Cell} {request : DriverRequest} {data : ℕ → UInt8}
    {i : Fin 64} {l : List Cell} (h : Stored v p request data i l) (hv : v.WellFormed)
    (ha : v.Agrees v') : Stored v' p request data i l := by
  have htable := ha.table_eq hv h.entry.existing
  refine ⟨(ha.liveEntry_iff hv p i).mp h.entry, ?_, ?_, ?_, ha.chain_of_liveEntry hv h.entry h.chain,
    fun j hj => ?_⟩
  · rw [htable]
    exact h.named
  · rw [htable]
    exact h.kind
  · rw [htable]
    exact h.size
  · have hkeep : ∀ c ∈ l, v' c = v c := fun c hc =>
      ha.clusters c (.inr (.inr ⟨p, i, l, h.entry, h.chain, hc⟩))
    rw [Volume.contents_congr hkeep]
    exact h.bytes j hj

theorem CompleteEntry.of_agrees {v v' : Volume} {d : Cell} {mem : Memory} {request : DriverRequest}
    {i : Fin 64} (h : CompleteEntry v d mem request i) (hv : v.WellFormed) (ha : v.Agrees v') :
    CompleteEntry v' d mem request i := by
  obtain ⟨l, hstored, hlength, hfresh⟩ := h
  refine ⟨l, hstored.of_agrees hv ha, hlength, fun hfolder c hc => ?_⟩
  rw [Volume.table, ha.clusters c (.inr (.inr ⟨d, i, l, hstored.entry, hstored.chain, hc⟩))]
  exact hfresh hfolder c hc

/-- Surviving only looks at what is in use. -/
theorem Survives.of_agrees {s t t' : Storage} {call : Call} (h : Survives s call t)
    (ht : t.volume.WellFormed) (ha : t.volume.Agrees t'.volume)
    (hcached : t'.clusterMap = t'.volume.fat) : Survives s call t' where
  reloaded := hcached
  kept he hl hkeep := by
    obtain ⟨he', hsame, hl', hdata⟩ := h.kept he hl hkeep
    refine ⟨(ha.liveEntry_iff ht _ _).mp he', ?_, ha.chain_of_liveEntry ht he' hl', fun hfile c hc => ?_⟩
    · rw [ha.table_eq ht he'.existing, hsame]
    · rw [ha.clusters c (.inr (.inr ⟨_, _, _, he', hl', hc⟩)), hdata hfile c hc]
  slots := by
    obtain ⟨k, hk⟩ := h.slots
    refine ⟨k, fun d j hd hd' hne => ?_⟩
    have hd'' := (ha.existing_iff ht d).mpr hd'
    rw [ha.table_eq ht hd'', hk d j hd hd'' hne]
  written he := by
    have he' := (ha.liveEntry_iff ht _ _).mpr he
    rw [ha.table_eq ht he'.existing]
    rcases h.written he' with hold | ⟨mem, request, hcall, hparent, hcomplete⟩
    · exact .inl hold
    · exact .inr ⟨mem, request, hcall, hparent, hcomplete.of_agrees ht ha⟩
  chains he := by
    have he' := (ha.liveEntry_iff ht _ _).mpr he
    obtain ⟨l, hl, hne, hcells⟩ := h.chains he'
    refine ⟨l, ha.chain_of_liveEntry ht he' hl, hne, fun c hc => ⟨(hcells c hc).1, ?_⟩⟩
    rw [hcached, ha.cells c (.inr ⟨_, _, _, he', hl, hc⟩), ← h.reloaded]
    exact (hcells c hc).2
  disjoint := (ha.wellFormed ht).disjoint

end Os2024.FileSystem
