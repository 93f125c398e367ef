import Os2024.FileSystem.Links
import Os2024.FileSystem.Outcomes

/-! # Deleting what was just written

The chain that `write` links is the chain that `delete` frees, and the slot it fills
was zero before. Deleting the entry that has just been written therefore gives back
the file allocation table and every table; only clusters that were free differ.
-/

namespace Os2024.FileSystem
open Library.PackedLayout Library.BlockStore Library.LinkedCells Library.Runs

/-- The storage `s'` is `s` up to the contents of the clusters that are free in `s`. -/
structure Restored (s s' : Storage) : Prop where
  map : s'.clusterMap = s.clusterMap
  fat : s'.volume 1 = s.volume 1
  tables : ∀ d, s.volume.Existing d → s'.volume d = s.volume d
  entries : ∀ c, s.volume.Owned c → s'.volume c = s.volume c
  used : ∀ c, s.clusterMap c ≠ fatEmptyEntry → s'.volume c = s.volume c
  behind : ∀ lba, 2048 ≤ lba → s'.disk lba = s.disk lba

theorem writeClusters_behind (x : Cluster) (c : Cell) (disk : Disk) {lba : ℕ} (h : 2048 ≤ lba) :
    writeClusters x c.number disk lba = disk lba := by
  have hc := c.isLt
  apply writeRange_outside
  rw [clusterToLba_number]
  omega

theorem replay_behind {ws : List ClusterWrite} (hws : ∀ w ∈ ws, ∃ c : Cell, w.clusterNumber = c.number)
    (disk : Disk) {lba : ℕ} (h : 2048 ≤ lba) : replay disk ws lba = disk lba := by
  induction ws generalizing disk with
  | nil => rfl
  | cons w ws ih =>
    obtain ⟨c, hc⟩ := hws w List.mem_cons_self
    have hrest := ih (fun w' hw' => hws w' (List.mem_cons_of_mem w hw'))
      (writeClusters w.data w.clusterNumber disk)
    rw [hc, writeClusters_behind w.data c disk h, ← hc] at hrest
    exact hrest

theorem Prepared.behind {s s₁ : Storage} {l : List Cell} (h : Prepared s s₁ l) {lba : ℕ}
    (hlba : 2048 ≤ lba) : s₁.disk lba = s.disk lba := by
  obtain ⟨ws, hws, hcells⟩ := h.writes
  rw [hws.disk]
  refine replay_behind (fun w hw => ?_) s.disk hlba
  obtain ⟨c, hc, -⟩ := hcells w hw
  exact ⟨c, hc⟩

theorem Deleted.behind {s s' : Storage} {p : Cell} {k : Fin 64} {l : List Cell}
    (w : Deleted s s' p k l) {lba : ℕ} (hlba : 2048 ≤ lba) : s'.disk lba = s.disk lba := by
  rw [w.writes.disk]
  refine replay_behind (fun x hx => ?_) s.disk hlba
  simp only [List.cons_append, List.mem_cons, List.mem_append, List.mem_map, List.not_mem_nil,
    or_false] at hx
  rcases hx with rfl | ⟨c, -, rfl⟩ | rfl
  · exact ⟨p, rfl⟩
  · exact ⟨c, rfl⟩
  · exact ⟨1, rfl⟩

section RoundTrip
variable {request : DriverRequest} {s s' : Storage} {p : Cell} {k : Fin 64} {c : Cell}
  {rest : List Cell}

theorem Written.cleared_table (w : Written request s p k c rest) (hs : s.Consistent)
    (hp : s.volume.Existing p) (mem : Memory) :
    (writeResult mem request s p k c rest).volume.setEntry p k .zero p = s.volume p := by
  have hzero := hs.wellFormed.free_zero hp k w.free
  rw [Volume.setEntry, Function.update_self, writeResult_table, Function.update_idem, ← hzero,
    Function.update_eq_self, Volume.table, Equiv.apply_symm_apply]

/-- Deleting the new entry restores the storage. -/
theorem Written.restored (w : Written request s p k c rest) (hs : s.Consistent)
    (hp : s.volume.Existing p) {mem : Memory}
    (h : Deleted (writeResult mem request s p k c rest) s' p k (c :: rest)) : Restored s s' := by
  have hprep := w.prepared hs mem
  have hmap : s'.clusterMap = s.clusterMap := by
    rw [h.map]
    change clear fatEmptyEntry (c :: rest) (writeData mem request c rest s).clusterMap = _
    rw [hprep.map, clear_link w.empty]
  have hfat : s'.volume 1 = s.volume 1 := by
    have hcached := h.cached
    rw [hmap, ← hs.cached] at hcached
    exact fatLayout.symm.injective hcached
  have hused : ∀ d, s.clusterMap d ≠ fatEmptyEntry → s'.volume d = s.volume d := by
    intro d hd
    have hmem : d ∉ c :: rest := fun hmem => hd (w.empty d hmem)
    by_cases hd1 : d = 1
    · exact hd1 ▸ hfat
    rw [h.outside d hd1 hmem]
    by_cases hdp : d = p
    · exact hdp ▸ w.cleared_table hs hp mem
    · rw [Volume.setEntry_of_ne hdp, writeResult, volume_writeClusters, Function.update_of_ne hdp,
        hprep.outside d hd1 hmem]
  have hin : ∀ d, d < 3 ∨ s.volume.Owned d → s.clusterMap d ≠ fatEmptyEntry := by
    intro d hd
    rw [← hs.cached]
    exact hs.wellFormed.used_ne_empty hd
  refine ⟨hmap, hfat, fun d hd => hused d (hin d ?_), fun d hd => hused d (hin d (.inr hd)), hused,
    fun lba hlba => ?_⟩
  · exact (hs.wellFormed.existing_cases hd).imp (by rintro rfl; decide) And.right
  · rw [h.behind hlba]
    exact (writeClusters_behind _ p _ hlba).trans (hprep.behind hlba)

theorem Written.deleted (w : Written request s p k c rest) (hs : s.Consistent)
    (hp : s.volume.Existing p) (mem : Memory) (hn : request.Named) {request' : DriverRequest}
    (hreq : request'.parentClusterNumber = p.number) (hname : request'.name = request.name)
    (hext : request'.ext = request.ext) :
    ∃ s', delete request' (writeResult mem request s p k c rest) = .ok (0, s') ∧
      Deleted (writeResult mem request s p k c rest) s' p k (c :: rest) := by
  have hs₁ := w.consistent hs hp mem
  have hnew := w.entryWritten hs hp mem
  have hn' : request'.Named := by
    rw [DriverRequest.Named, DriverRequest.Matches, hname, hext]
    exact hn
  have hm : request'.Matches ((writeResult mem request s p k c rest).volume.table p k) :=
    ⟨hnew.named.1.trans hname.symm, hnew.named.2.trans hext.symm⟩
  have hone : ∀ i, request'.Matches ((writeResult mem request s p k c rest).volume.table p i) →
      i = k := fun i => hs₁.wellFormed.match_unique hn' hnew.entry hm
  have hout := delete_outcome hs₁ hnew.entry.existing hreq
    (hn'.clear hs₁.wellFormed hnew.entry.existing)
  generalize delete request' _ = out at hout
  cases hout with
  | notFound hnone => exact absurd hm (hnone k hnew.entry.slot)
  | @inUse i hi hmi huse =>
    obtain rfl := hone i hmi
    obtain ⟨hf, d, hd, j, hj, hlive⟩ := huse
    obtain ⟨hfresh, -⟩ := w.newFolder hs hp (hnew.kind.mp hf) mem
    obtain rfl : d = c := Cell.number_injective (hd.symm.trans hnew.chain.1)
    exact absurd hlive (hfresh.not_live hj)
  | @done s' i l hmi hdel =>
    obtain rfl := hone i hmi
    obtain rfl := hdel.chain.unique hnew.chain
    exact ⟨s', rfl, hdel⟩

end RoundTrip

/-- In every state of a valid run, deleting what a valid write has just stored returns 0 and takes
the write back. -/
theorem delete_undoes_write (s₀ : Storage) {s s₁ : Storage}
    (hrun : Run ValidStep (createFat32 s₀) s) {mem : Memory} {request request' : DriverRequest}
    (hv : request.Valid s.volume) (hwrite : write mem request s = .ok (0, s₁))
    (hparent : request'.parentClusterNumber = request.parentClusterNumber)
    (hname : request'.name = request.name) (hext : request'.ext = request.ext) :
    ∃ s₂, delete request' s₁ = .ok (0, s₂) ∧ Restored s s₂ := by
  have hs := (sound_of_run hrun).toConsistent
  obtain ⟨p, hreq, hp⟩ := hv.parent
  obtain ⟨-, k, c, rest, w, rfl⟩ := write_done hreq hwrite
  obtain ⟨s₂, hdelete, hdel⟩ := w.deleted hs hp mem hv.named (hparent.trans hreq) hname hext
  exact ⟨s₂, hdelete, w.restored hs hp hdel⟩

theorem delete_undoes_write_note : ∃ s₁ s₂,
    write (fun _ => 7) noteRequest (createFat32 blankStorage) = .ok (0, s₁) ∧
      delete noteRequest s₁ = .ok (0, s₂) ∧ Restored (createFat32 blankStorage) s₂ := by
  obtain ⟨s₁, hw⟩ := write_note fun _ => 7
  have hundo := @delete_undoes_write blankStorage _ _ (Run.refl _) _ _ noteRequest
    noteRequest_valid hw rfl rfl rfl
  obtain ⟨s₂, hdelete, hrestored⟩ := hundo
  exact ⟨s₁, s₂, hw, hdelete, hrestored⟩

end Os2024.FileSystem
