import Os2024.FileSystem.RoundTrip

/-! # Power loss between two disk writes

A call may be cut after any prefix of its writes, and the next boot reloads the
table from the disk. Cells may then be in use without an owner, so the invariant
of these runs says nothing about leaks. What a cut call leaves is one of the
changes a whole call can make.
-/

namespace Os2024.FileSystem
open Library.PackedLayout Library.LinkedCells Library.Runs

def newWrites (s s' : Storage) : List ClusterWrite := s'.journal.drop s.journal.length

theorem Wrote.newWrites_eq {s s' : Storage} {ws : List ClusterWrite} (h : Wrote s s' ws) :
    newWrites s s' = ws := by
  rw [newWrites, h.journal, List.drop_left]

/-- Whatever prefix of its writes a call has done, the disk has undergone one of its changes. -/
theorem Effect.wrote {p : Cell} {call : Call} {s s' : Storage} (h : Effect p call s s')
    (hs : s.Consistent) : ∃ ws, Wrote s s' ws ∧
      ∀ n, Change p call s (diskVolume (replay s.disk (ws.take n))) := by
  cases h with
  | unchanged =>
    refine ⟨[], Wrote.refl s, fun n => ?_⟩
    rw [List.take_nil]
    exact .before _ (.refl _)
  | @linked mem request _ k c rest w =>
    obtain ⟨ws, hws, hharmless⟩ := (w.prepared hs mem).harmless hs (fun _ => w.reserved hs)
      (fun _ => w.unowned hs)
    have hall : Wrote s (writeResult mem request s p k c rest) _ := hws.writeClusters p.number _
    refine ⟨_, hall, fun n => ?_⟩
    by_cases hn : n ≤ ws.length
    · rw [List.take_append_of_le_length hn]
      exact .before _ (agrees_replay hs.wellFormed (.refl _) fun x hx =>
        hharmless x (List.mem_of_mem_take hx))
    · -- the last write is the one that links the entry
      rw [List.take_of_length_le (by rw [List.length_append, List.length_singleton]; omega),
        ← hall.disk]
      exact .linked w
  | @unlinked request _ _ k l hm w =>
    obtain ⟨ws, hws, hharmless⟩ := w.harmless hs
    refine ⟨_, hws, fun n => ?_⟩
    cases n with
    | zero => exact .before _ (.refl _)
    | succ n =>
      have hfirst : diskVolume (writeClusters (tableLayout (Function.update (s.volume.table p) k
          .zero)) p.number s.disk) = s.volume.setEntry p k .zero := diskVolume_writeClusters p _ _
      have hstart : (s.volume.setEntry p k .zero).Agrees (diskVolume (writeClusters (tableLayout
          (Function.update (s.volume.table p) k .zero)) p.number s.disk)) := by
        rw [hfirst]
        exact .refl _
      have hall : ∀ x ∈ ws.take n, Harmless (s.volume.setEntry p k .zero) x :=
        fun x hx => hharmless x (List.mem_of_mem_take hx)
      have hrest := agrees_replay (w.removable.wellFormed hs.wellFormed) hstart hall
      exact .unlinked hm w.removable hrest

/-- The boot after a power loss; the cached table starts zeroed. -/
def reboot (disk : Disk) : Storage := initializeFilesystemFat32 ⟨fun _ => fatEmptyEntry, disk, []⟩

theorem reboot_signed {disk : Disk} (h : Signed (diskVolume disk)) :
    reboot disk = ⟨(diskVolume disk).fat, disk, []⟩ := initializeFilesystemFat32_signed h

/-- A valid write or delete that completes, or that is cut after its first `n` writes. -/
def CrashStep (s : Storage) (label : Call × Option ℕ) (s' : Storage) : Prop :=
  ∃ s₁, ValidStep s label.1 s₁ ∧
    s' = match label.2 with
      | none => s₁
      | some n => reboot (replay s.disk ((newWrites s s₁).take n))

/-- What holds in every state of a run with power losses. -/
structure Recoverable (s : Storage) : Prop extends s.Consistent where
  signed : Signed s.volume
  sized : s.volume.Sized

theorem createFat32_recoverable (s : Storage) : Recoverable (createFat32 s) where
  toConsistent := createFat32_consistent s
  signed := createFat32_signed s
  sized := (createFat32_sound s).sized

/-- A step changes the disk as some moment of its call, and the cached table is the stored one. -/
theorem CrashStep.change {s s' : Storage} {label : Call × Option ℕ} (h : CrashStep s label s')
    (hs : Recoverable s) : ∃ p : Cell, label.1.request.parentClusterNumber = p.number ∧
      s.volume.Existing p ∧ Change p label.1 s s'.volume ∧ s'.volume.fat = s'.clusterMap := by
  obtain ⟨call, cut⟩ := label
  obtain ⟨s₁, hstep, hs'⟩ := h
  obtain ⟨p, hreq, hp, heff⟩ := hstep.effect hs.toConsistent
  refine ⟨p, hreq, hp, ?_⟩
  cases cut with
  | none =>
    obtain rfl : s' = s₁ := hs'
    exact ⟨heff.change hs.toConsistent, (heff.consistent hs.toConsistent hp).cached⟩
  | some n =>
    obtain ⟨ws, hws, hchange⟩ := heff.wrote hs.toConsistent
    have hn := hchange n
    have heq : s' = reboot (replay s.disk ((newWrites s s₁).take n)) := hs'
    rw [hws.newWrites_eq, reboot_signed (hn.signed hs.toConsistent hp hs.signed)] at heq
    rw [heq]
    exact ⟨hn, rfl⟩

theorem Recoverable.step {s s' : Storage} {label : Call × Option ℕ} (hs : Recoverable s)
    (h : CrashStep s label s') : Recoverable s' := by
  have hsize : label.1.request.bufferSize.toNat ≤ maxFileSize := by
    obtain ⟨_, hstep, -⟩ := h
    exact hstep.2.1.size
  obtain ⟨p, -, hp, hchange, hcached⟩ := h.change hs
  exact
    { wellFormed := hchange.wellFormed hs.toConsistent hp
      cached := hcached
      signed := hchange.signed hs.toConsistent hp hs.signed
      sized := hchange.sized hs.toConsistent hp hsize hs.sized }

theorem recoverable_of_run {s₀ s : Storage} (h : Run CrashStep (createFat32 s₀) s) :
    Recoverable s :=
  h.invariant (createFat32_recoverable s₀) fun _ _ _ hs hstep => hs.step hstep

def Call.Removes (call : Call) (s : Storage) (d : Cell) (i : Fin 64) : Prop :=
  ∃ request, call = .delete request ∧ request.parentClusterNumber = d.number ∧
    request.Matches (s.volume.table d i)

/-- Slot `i` of `d` holds the whole entry of a request: its chain, its bytes, and for a folder a
table without entries. -/
def CompleteEntry (v : Volume) (d : Cell) (mem : Memory) (request : DriverRequest) (i : Fin 64) :
    Prop :=
  ∃ l, Stored v d request (bufferBytes mem request) i l ∧
    l.length = (if request.bufferSize = 0 then 1 else (request.bufferSize.toNat + 2047) / 2048) ∧
    (request.bufferSize = 0 → ∀ c ∈ l, Volume.FreshTable (v.table c))

/-- From the state `s` before the call to the state `s'` after it nothing else is lost, and what
is new is complete. -/
structure Survives (s : Storage) (call : Call) (s' : Storage) : Prop where
  reloaded : s'.clusterMap = s'.volume.fat
  kept : ∀ {d i l}, s.volume.LiveEntry d i → s.volume.EntryChain (s.volume.table d i) l →
    ¬call.Removes s d i → s'.volume.LiveEntry d i ∧ s'.volume.table d i = s.volume.table d i ∧
      s'.volume.EntryChain (s'.volume.table d i) l ∧
      (¬(s.volume.table d i).IsFolder → ∀ c ∈ l, s'.volume c = s.volume c)
  slots : ∃ k, ∀ d j, s.volume.Existing d → s'.volume.Existing d →
    (d.number, j) ≠ (call.request.parentClusterNumber, k) → s'.volume.table d j = s.volume.table d j
  written : ∀ {d i}, s'.volume.LiveEntry d i →
    (s.volume.LiveEntry d i ∧ s'.volume.table d i = s.volume.table d i) ∨
      ∃ mem request, call = .write mem request ∧ request.parentClusterNumber = d.number ∧
        CompleteEntry s'.volume d mem request i
  chains : ∀ {d i}, s'.volume.LiveEntry d i → ∃ l, s'.volume.EntryChain (s'.volume.table d i) l ∧
    l ≠ [] ∧ ∀ c ∈ l, 3 ≤ c ∧ s'.clusterMap c ≠ fatEmptyEntry
  disjoint : ∀ {d i d' i' l l'}, s'.volume.LiveEntry d i → s'.volume.LiveEntry d' i' →
    s'.volume.EntryChain (s'.volume.table d i) l → s'.volume.EntryChain (s'.volume.table d' i') l' →
    (d, i) ≠ (d', i') → l.Disjoint l'

/-- The entry a write has linked is complete. -/
theorem Written.complete {request : DriverRequest} {s : Storage} {p : Cell} {k : Fin 64} {c : Cell}
    {rest : List Cell} (w : Written request s p k c rest) (hs : s.Consistent)
    (hp : s.volume.Existing p) (hsize : request.bufferSize.toNat ≤ maxFileSize) (mem : Memory) :
    CompleteEntry (writeResult mem request s p k c rest).volume p mem request k := by
  refine ⟨c :: rest, w.stored hs hp hsize mem, ?_, fun h0 d hd => ?_⟩
  · rw [w.length]
    by_cases h0 : request.bufferSize = 0
    · rw [if_pos h0, h0, requiredSlots_folder]
      rfl
    · rw [if_neg h0, requiredSlots, if_neg h0, clusterCount_of_valid hsize]
  · have hfits := w.fits hs hp mem
    have hwell := (w.agrees hs mem).wellFormed hs.wellFormed
    have hdp : d ≠ p := by
      rintro rfl
      exact hfits.not_mem hwell hfits.existing hd
    rw [w.volume hs hp mem, Volume.table_setEntry, if_neg hdp]
    exact hfits.folder ((newEntry_isFolder request c).mpr h0) d hd

/-- Every state a step can leave, cut or not, has survived it. -/
theorem CrashStep.survives {s s' : Storage} {label : Call × Option ℕ} (h : CrashStep s label s')
    (hs : Recoverable s) : Survives s label.1 s' := by
  have hsize : label.1.request.bufferSize.toNat ≤ maxFileSize := by
    obtain ⟨_, hstep, -⟩ := h
    exact hstep.2.1.size
  have hs' := hs.step h
  obtain ⟨p, hreq, hp, hchange, hcached⟩ := h.change hs
  refine
    { reloaded := hcached.symm
      kept := ?_
      slots := ?_
      written := ?_
      chains := ?_
      disjoint := hs'.wellFormed.disjoint }
  · intro d i l he hl hkeep
    have hkept := hchange.kept hs.toConsistent hp he (by
      rintro request hcall rfl hm
      rw [hcall] at hreq
      exact hkeep ⟨request, hcall, hreq, hm⟩)
    refine ⟨hkept.entry, hkept.same, hkept.chain l hl, fun hfile c hc => hkept.data l hl c hc ?_⟩
    rintro rfl
    exact hs.wellFormed.file_not_existing he hfile hl hc hp
  · obtain ⟨k, -, htables⟩ := hchange.tables hs.toConsistent hp
    refine ⟨k, fun d j hd hd' hne => htables d j hd hd' fun heq => hne ?_⟩
    obtain ⟨rfl, rfl⟩ := Prod.mk.inj heq
    rw [hreq]
  · intro d i he
    rcases hchange.liveEntry_cases hs.toConsistent hp he with
      hold | ⟨mem, request, c, rest, hcall, rfl, hw, heq⟩
    · exact .inl hold
    · rw [hcall] at hreq hsize
      refine .inr ⟨mem, request, hcall, hreq, ?_⟩
      rw [heq]
      exact hw.complete hs.toConsistent hp hsize mem
  · intro d i he
    obtain ⟨l, hl, hne, hge, -⟩ := hs'.wellFormed.chain he
    refine ⟨l, hl, hne, fun c hc => ⟨hge c hc, ?_⟩⟩
    rw [← hcached]
    exact hs'.wellFormed.owned_ne_empty ⟨d, i, l, he, hl, hc⟩

/-- In every run with power losses, every call, complete or cut, is survived. -/
theorem crashRun_survives (s₀ : Storage) {s s' : Storage} {call : Call} {cut : Option ℕ}
    (hrun : Run CrashStep (createFat32 s₀) s) (hstep : CrashStep s (call, cut) s') :
    Survives s call s' := CrashStep.survives hstep (recoverable_of_run hrun)

/-- Writing the note is cut after the first of its five disk writes. -/
theorem crashRun_survives_note : ∃ s₁,
    write (fun _ => 7) noteRequest (createFat32 blankStorage) = .ok (0, s₁) ∧
    Survives (createFat32 blankStorage) (.write (fun _ => 7) noteRequest)
      (reboot (replay (createFat32 blankStorage).disk
        ((newWrites (createFat32 blankStorage) s₁).take 1))) := by
  obtain ⟨s₁, hw, hstep⟩ := writeStep_note (fun _ => 7)
  have hcrash : CrashStep (createFat32 blankStorage) (.write (fun _ => 7) noteRequest, some 1) _ :=
    ⟨s₁, hstep, rfl⟩
  exact ⟨s₁, hw, crashRun_survives blankStorage (Run.refl _) hcrash⟩

end Os2024.FileSystem
