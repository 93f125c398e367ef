import Os2024.FileSystem.Entries
import Os2024.FileSystem.Journal
import Os2024.FileSystem.Search

/-! # What a successful `write` does

The data phase links free cells and fills their clusters; it is harmless to
everything in use. The last write of the operation then puts the new entry into
the parent's table. An operation that does not return 0 changes nothing.
-/

namespace Os2024.FileSystem
open Library.PackedLayout Library.LinkedCells

/-- The cached table is the stored one and the disk is well formed. -/
structure Storage.Consistent (s : Storage) : Prop where
  wellFormed : s.volume.WellFormed
  cached : s.volume.fat = s.clusterMap

theorem Storage.Consistent.parent_cell {s : Storage} (hs : s.Consistent) {p : Cell}
    (hp : s.volume.Existing p) : s.clusterMap p = fatEndOfFile := by
  rw [← hs.cached]
  exact hs.wellFormed.existing_cell hp

theorem Storage.Consistent.all_live {s : Storage} (hs : s.Consistent) {p : Cell}
    (hp : s.volume.Existing p) (hfull : ∀ i, i ≠ 0 → (s.volume.table p i).Live) (i : Fin 64) :
    (s.volume.table p i).Live := by
  by_cases hi : i = 0
  · exact hi ▸ (hs.wellFormed.links hp).1
  · exact hfull i hi

structure Prepared (s s₁ : Storage) (l : List Cell) : Prop where
  map : s₁.clusterMap = link Cell.number fatEndOfFile l s.clusterMap
  cached : s₁.volume.fat = s₁.clusterMap
  outside : ∀ c, c ≠ 1 → c ∉ l → s₁.volume c = s.volume c
  writes : ∃ ws, Wrote s s₁ ws ∧ ∀ w ∈ ws, ∃ c : Cell, w.clusterNumber = c.number ∧
    ((c = 1 ∧ ∀ d, d ∉ l → fatLayout.symm w.data d = s.clusterMap d) ∨ c ∈ l)

theorem writeFile_prepared (mem : Memory) {l : List Cell} (h1 : (1 : Cell) ∉ l) (buf : UInt32)
    {s : Storage} (hs : s.volume.fat = s.clusterMap) : Prepared s (writeFile mem l buf s) l := by
  induction l generalizing buf s with
  | nil =>
    refine ⟨rfl, hs, fun _ _ _ => rfl, [], Wrote.refl s, ?_⟩
    intro w hw
    cases hw
  | cons c l ih =>
    rw [List.mem_cons, not_or] at h1
    let s₀ := ((s.setCell c (head Cell.number fatEndOfFile l)).writeFat).writeClusters c.number
      (mem.load 2048 buf)
    have hs₀ : s₀.volume.fat = s₀.clusterMap :=
      (fat_writeClusters _ (Ne.symm h1.1) _).trans (fat_writeFat _)
    obtain ⟨hmap, hcached, hout, ws, hws, hcells⟩ := ih h1.2 (buf + clusterSize) hs₀
    refine ⟨hmap, hcached, ?_, ?_⟩
    · intro d hd1 hd
      rw [List.mem_cons, not_or] at hd
      apply (hout d hd1 hd.2).trans
      rw [volume_writeClusters, Function.update_of_ne hd.1, volume_writeFat_of_ne _ hd1,
        volume_setCell]
    · have hfirst := ((Wrote.refl s).setCell c (head Cell.number fatEndOfFile l)).writeFat
      refine ⟨_, (hfirst.writeClusters c.number (mem.load 2048 buf)).trans hws, ?_⟩
      intro w hw
      rcases List.mem_append.mp hw with hw | hw
      · rcases List.mem_append.mp hw with hw | hw
        · obtain rfl := List.mem_singleton.mp hw
          refine ⟨1, rfl, .inl ⟨rfl, fun d hd => ?_⟩⟩
          rw [List.mem_cons, not_or] at hd
          rw [Equiv.symm_apply_apply, clusterMap_setCell, Function.update_of_ne hd.1]
        · obtain rfl := List.mem_singleton.mp hw
          exact ⟨c, rfl, .inr List.mem_cons_self⟩
      · obtain ⟨a, ha, hcase⟩ := hcells w hw
        refine ⟨a, ha, ?_⟩
        rcases hcase with ⟨ha1, hkeep⟩ | ha
        · refine .inl ⟨ha1, fun d hd => ?_⟩
          rw [List.mem_cons, not_or] at hd
          apply (hkeep d hd.2).trans
          rw [clusterMap_writeClusters, clusterMap_writeFat, clusterMap_setCell,
            Function.update_of_ne hd.1]
        · exact .inr (List.mem_cons_of_mem c ha)

theorem writeFile_data (mem : Memory) {l : List Cell} (hl : l.Nodup) (h1 : (1 : Cell) ∉ l)
    (buf : UInt32) {s : Storage} (hs : s.volume.fat = s.clusterMap) (j : ℕ) (hj : j < l.length) :
    (writeFile mem l buf s).volume l[j] = mem.load 2048 (buf + UInt32.ofNat (2048 * j)) := by
  induction l generalizing buf s j with
  | nil => exact absurd hj (Nat.not_lt_zero j)
  | cons c l ih =>
    obtain ⟨hc, hl⟩ := List.nodup_cons.mp hl
    rw [List.mem_cons, not_or] at h1
    let s₀ := ((s.setCell c (head Cell.number fatEndOfFile l)).writeFat).writeClusters c.number
      (mem.load 2048 buf)
    have hs₀ : s₀.volume.fat = s₀.clusterMap :=
      (fat_writeClusters _ (Ne.symm h1.1) _).trans (fat_writeFat _)
    cases j with
    | zero =>
      have hkeep := (writeFile_prepared mem h1.2 (buf + clusterSize) hs₀).outside c
        (Ne.symm h1.1) hc
      apply hkeep.trans
      rw [volume_writeClusters, Function.update_self]
      simp
    | succ j =>
      have hnext := ih hl h1.2 (buf + clusterSize) hs₀ j (Nat.lt_of_succ_lt_succ hj)
      refine hnext.trans (congrArg (mem.load 2048) ?_)
      rw [Nat.mul_succ, UInt32.ofNat_add, add_assoc, add_comm (UInt32.ofNat (2048 * j))]
      rfl

section InitDirectoryTable
variable (t : DirectoryTable) (name : Bytes 8) (parent : UInt32) (disk : Disk)

theorem initDirectoryTable_of_ge {i : Fin 64} (hi : 2 ≤ i) :
    initDirectoryTable t name parent disk i = t i := by
  have h0 : i ≠ 0 := by
    rintro rfl
    exact absurd hi (by decide)
  have h1 : i ≠ 1 := by
    rintro rfl
    exact absurd hi (by decide)
  rw [initDirectoryTable, Function.update_of_ne h1, Function.update_of_ne h0]

theorem initDirectoryTable_zero : initDirectoryTable t name parent disk 0 =
    { t 0 with name := copyName name, attr := attrSubdirectory, userAttribute := uattrNotEmpty } := by
  rw [initDirectoryTable, Function.update_of_ne (by decide), Function.update_self]

theorem initDirectoryTable_one_live : (initDirectoryTable t name parent disk 1).Live := by
  rw [initDirectoryTable, Function.update_self]
  rfl

theorem initDirectoryTable_ext (i : Fin 64) :
    (initDirectoryTable t name parent disk i).ext = (t i).ext := by
  by_cases h1 : i = 1
  · subst i
    rw [initDirectoryTable, Function.update_self]
  · by_cases h0 : i = 0
    · subst i
      rw [initDirectoryTable_zero]
    · rw [initDirectoryTable, Function.update_of_ne h1, Function.update_of_ne h0]

/-- The driver makes a fresh table of an all-zero one, whatever it then puts into the cluster
fields of slot 0. -/
theorem initDirectoryTable_fresh (low high : UInt16) : Volume.FreshTable
    (Function.update (initDirectoryTable (fun _ => .zero) name parent disk) 0
      { initDirectoryTable (fun _ => .zero) name parent disk 0 with
        clusterLow := low, clusterHigh := high }) := by
  refine ⟨?_, ?_, fun i hi => ?_⟩
  · rw [Function.update_self, initDirectoryTable_zero]
    rfl
  · rw [Function.update_of_ne (by decide)]
    exact initDirectoryTable_one_live _ _ _ _
  · have h0 : i ≠ 0 := by
      rintro rfl
      exact absurd hi (by decide)
    rw [Function.update_of_ne h0, initDirectoryTable_of_ge _ _ _ _ hi]

end InitDirectoryTable

theorem writeFolder_prepared (request : DriverRequest) (c : Cell) (s : Storage) :
    Prepared s (writeFolder request c s) [c] := by
  refine ⟨rfl, fat_writeFat _, ?_, ?_⟩
  · intro d hd1 hd
    rw [writeFolder, volume_writeFat_of_ne _ hd1, volume_setCell, volume_writeClusters,
      Function.update_of_ne (fun h => hd (List.mem_singleton.mpr h))]
  · refine ⟨_, (((Wrote.refl s).writeClusters c.number _).setCell c fatEndOfFile).writeFat, ?_⟩
    intro w hw
    rcases List.mem_append.mp hw with hw | hw
    · obtain rfl := List.mem_singleton.mp hw
      exact ⟨c, rfl, .inr List.mem_cons_self⟩
    · obtain rfl := List.mem_singleton.mp hw
      refine ⟨1, rfl, .inl ⟨rfl, fun d hd => ?_⟩⟩
      rw [Equiv.symm_apply_apply]
      exact Function.update_of_ne (fun h => hd (List.mem_singleton.mpr h)) _ _

theorem writeFolder_fresh (request : DriverRequest) {c : Cell} (h1 : c ≠ 1) (s : Storage) :
    Volume.FreshTable ((writeFolder request c s).volume.table c) := by
  rw [Volume.table, writeFolder, volume_writeFat_of_ne _ h1, volume_setCell, volume_writeClusters,
    Function.update_self, Equiv.symm_apply_apply]
  exact initDirectoryTable_fresh _ _ _ _ _

def writeData (mem : Memory) (request : DriverRequest) (c : Cell) (rest : List Cell) (s : Storage) :
    Storage :=
  if request.bufferSize = 0 then writeFolder request c s
  else writeFile mem (c :: rest) request.buf s

/-- What the scans of a `write` that returns 0 have found: slot `k` of `p` and the cells of the
new chain. -/
structure Written (request : DriverRequest) (s : Storage) (p : Cell) (k : Fin 64) (c : Cell)
    (rest : List Cell) : Prop where
  fresh : ∀ i, ¬request.Matches (s.volume.table p i)
  slot : k ≠ 0
  free : ¬(s.volume.table p k).Live
  empty : ∀ d ∈ c :: rest, s.clusterMap d = fatEmptyEntry
  nodup : (c :: rest).Nodup
  length : (c :: rest).length = (requiredSlots request.bufferSize).toNat

def writeResult (mem : Memory) (request : DriverRequest) (s : Storage) (p : Cell) (k : Fin 64)
    (c : Cell) (rest : List Cell) : Storage :=
  (writeData mem request c rest s).writeClusters p.number
    (tableLayout (Function.update (s.volume.table p) k (newEntry request c)))

section WriteResult
variable (mem : Memory) (request : DriverRequest) (s : Storage) (p : Cell) (k : Fin 64) (c : Cell)
  (rest : List Cell)

theorem writeResult_table : (writeResult mem request s p k c rest).volume.table p =
    Function.update (s.volume.table p) k (newEntry request c) := by
  rw [Volume.table, writeResult, volume_writeClusters, Function.update_self, Equiv.symm_apply_apply]

@[simp] theorem writeResult_entry :
    (writeResult mem request s p k c rest).volume.table p k = newEntry request c := by
  rw [writeResult_table, Function.update_self]

end WriteResult

/-- Every way in which `write` can end: the parent is refused, the name is taken, no slot or too
few cells are free, no cell is asked for, or the entry is written. -/
inductive WriteOutcome (mem : Memory) (request : DriverRequest) (s : Storage) (p : Cell) :
    Except Fault (Int8 × Storage) → Prop
  | refused (hcell : s.clusterMap p ≠ fatEndOfFile) : WriteOutcome mem request s p (.ok (2, s))
  | taken (hcell : s.clusterMap p = fatEndOfFile)
      (hm : ∃ i, request.Matches (s.volume.table p i)) : WriteOutcome mem request s p (.ok (1, s))
  | noSlot (hcell : s.clusterMap p = fatEndOfFile)
      (hfresh : ∀ i, ¬request.Matches (s.volume.table p i))
      (hfull : ∀ i, i ≠ 0 → (s.volume.table p i).Live) :
      WriteOutcome mem request s p (.ok (-1, s))
  | noRoom {k : Fin 64} (hcell : s.clusterMap p = fatEndOfFile)
      (hfresh : ∀ i, ¬request.Matches (s.volume.table p i)) (hslot : FirstFree (s.volume.table p) k)
      (hfew : (freeCells s.clusterMap).length < (requiredSlots request.bufferSize).toNat) :
      WriteOutcome mem request s p (.ok (-1, s))
  | noCell {k : Fin 64} (hcell : s.clusterMap p = fatEndOfFile)
      (hfresh : ∀ i, ¬request.Matches (s.volume.table p i)) (hslot : FirstFree (s.volume.table p) k)
      (hzero : (requiredSlots request.bufferSize).toNat = 0) :
      WriteOutcome mem request s p (.error .outOfBounds)
  | done {k : Fin 64} {c : Cell} {rest : List Cell} (hcell : s.clusterMap p = fatEndOfFile)
      (hslot : FirstFree (s.volume.table p) k)
      (hcells : c :: rest =
        (freeCells s.clusterMap).take (requiredSlots request.bufferSize).toNat)
      (w : Written request s p k c rest) :
      WriteOutcome mem request s p (.ok (0, writeResult mem request s p k c rest))

theorem write_outcome (mem : Memory) {request : DriverRequest} (s : Storage) {p : Cell}
    (hp : request.parentClusterNumber = p.number) :
    WriteOutcome mem request s p (write mem request s) := by
  rw [write, hp, cellAt_number]
  dsimp only
  rw [directoryTable_number]
  by_cases hcell : s.clusterMap p = fatEndOfFile
  swap
  · rw [if_pos hcell]
    exact .refused hcell
  rw [if_neg (not_not.mpr hcell)]
  cases hscan : scanSlots request (s.volume.table p) (List.finRange 64) 0 with
  | none => exact .taken hcell (scanSlots_eq_none.mp hscan)
  | some k =>
    obtain ⟨hfresh, hfull⟩ := scanSlots_eq_some hscan
    dsimp only
    by_cases hk : k = 0
    · rw [if_pos hk]
      exact .noSlot hcell hfresh (hfull hk)
    rw [if_neg hk]
    have hslot := scanSlots_firstFree hscan hk
    have hslots : countEmptyFatSlots s.clusterMap (requiredSlots request.bufferSize).toNat
        (List.finRange 512) = (freeCells s.clusterMap).take
          (requiredSlots request.bufferSize).toNat := countEmptyFatSlots_eq _ _ _
    have hmem := fun d => @mem_countEmptyFatSlots s.clusterMap
      (requiredSlots request.bufferSize).toNat (List.finRange 512) d
    have hnodup := @countEmptyFatSlots_nodup s.clusterMap (requiredSlots request.bufferSize).toNat _
      (List.nodup_finRange 512)
    generalize countEmptyFatSlots s.clusterMap _ _ = slots at hslots hmem hnodup
    have hlen := congrArg List.length hslots
    rw [List.length_take] at hlen
    by_cases hfew : slots.length < (requiredSlots request.bufferSize).toNat
    · rw [if_pos hfew]
      exact .noRoom hcell hfresh hslot (by omega)
    rw [if_neg hfew]
    cases slots with
    | nil => exact .noCell hcell hfresh hslot (Nat.eq_zero_of_not_pos hfew)
    | cons c rest =>
      exact .done hcell hslot hslots ⟨hfresh, hk, hslot.free, hmem, hnodup, by omega⟩

/-- Every way in which `write` can return. -/
theorem write_cases {mem : Memory} {request : DriverRequest} {s s' : Storage} {r : Int8} {p : Cell}
    (hp : request.parentClusterNumber = p.number) (h : write mem request s = .ok (r, s')) :
    (s' = s ∧ (r = 1 ∨ r = -1 ∨ r = 2 ∧ s.clusterMap p ≠ fatEndOfFile)) ∨
      (r = 0 ∧ ∃ k c rest, Written request s p k c rest ∧
        s' = writeResult mem request s p k c rest) := by
  have hout := write_outcome mem s hp
  rw [h] at hout
  cases hout with
  | refused hcell => exact .inl ⟨rfl, .inr (.inr ⟨rfl, hcell⟩)⟩
  | taken => exact .inl ⟨rfl, .inl rfl⟩
  | noSlot => exact .inl ⟨rfl, .inr (.inl rfl)⟩
  | noRoom => exact .inl ⟨rfl, .inr (.inl rfl)⟩
  | done _ _ _ w => exact .inr ⟨rfl, _, _, _, w, rfl⟩

/-- A `write` that returns 0 has written the entry. -/
theorem write_done {mem : Memory} {request : DriverRequest} {s s' : Storage} {p : Cell}
    (hp : request.parentClusterNumber = p.number) (h : write mem request s = .ok (0, s')) :
    s.clusterMap p = fatEndOfFile ∧ ∃ k c rest, Written request s p k c rest ∧
      s' = writeResult mem request s p k c rest := by
  have hout := write_outcome mem s hp
  rw [h] at hout
  generalize hr : (0 : Int8) = r at hout
  cases hout with
  | done hcell _ _ w => exact ⟨hcell, _, _, _, w, rfl⟩
  | _ => exact absurd hr (by decide)

/-- Only a request whose 8-bit cluster count vanishes makes `write` fail to return. -/
theorem write_returns (mem : Memory) {request : DriverRequest} (s : Storage) {p : Cell}
    (hp : request.parentClusterNumber = p.number)
    (hsize : request.bufferSize = 0 ∨ clusterCount request.bufferSize ≠ 0) :
    ∃ r s', write mem request s = .ok (r, s') := by
  have hout := write_outcome mem s hp
  generalize write mem request s = out at hout
  cases hout with
  | noCell _ _ _ hzero => exact absurd hzero (requiredSlots_pos hsize).ne'
  | _ => exact ⟨_, _, rfl⟩

/-- A new name, a free slot and enough free cells are all that `write` needs. -/
theorem write_succeeds (mem : Memory) {request : DriverRequest} {s : Storage} {p : Cell}
    (hp : request.parentClusterNumber = p.number) (hcell : s.clusterMap p = fatEndOfFile)
    (hfresh : ∀ i, ¬request.Matches (s.volume.table p i)) {i : Fin 64} (hi : i ≠ 0)
    (hfree : ¬(s.volume.table p i).Live) (hpos : 0 < (requiredSlots request.bufferSize).toNat)
    (hroom : (requiredSlots request.bufferSize).toNat ≤ (freeCells s.clusterMap).length) :
    ∃ s', write mem request s = .ok (0, s') := by
  have hout := write_outcome mem s hp
  generalize write mem request s = out at hout
  cases hout with
  | refused h => exact absurd hcell h
  | taken _ hm =>
    obtain ⟨j, hj⟩ := hm
    exact absurd hj (hfresh j)
  | noSlot _ _ hfull => exact absurd (hfull i hi) hfree
  | noRoom _ _ _ hfew => exact absurd hroom (not_le.mpr hfew)
  | noCell _ _ _ hzero => exact absurd hzero hpos.ne'
  | done => exact ⟨_, rfl⟩

theorem Prepared.agrees {s s₁ : Storage} {l : List Cell} (h : Prepared s s₁ l) (hs : s.Consistent)
    (hge : ∀ c ∈ l, 3 ≤ c) (hfree : ∀ c ∈ l, ¬s.volume.Owned c) : s.volume.Agrees s₁.volume := by
  have hout : ∀ c, c < 3 ∨ s.volume.Owned c → c ∉ l := by
    intro c hc hmem
    rcases hc with hlt | ho
    · exact absurd (hge c hmem) (not_le.mpr hlt)
    · exact hfree c hmem ho
  constructor
  · rintro c (rfl | rfl | ho)
    · exact h.outside 0 (by decide) (hout 0 (.inl (by decide)))
    · exact h.outside 2 (by decide) (hout 2 (.inl (by decide)))
    · have hge := hs.wellFormed.owned_ge ho
      refine h.outside c ?_ (hout c (.inr ho))
      rintro rfl
      exact absurd hge (by decide)
  · intro c hc
    rw [h.cached, h.map, link_outside (hout c hc), hs.cached]

theorem Prepared.harmless {s s₁ : Storage} {l : List Cell} (h : Prepared s s₁ l) (hs : s.Consistent)
    (hge : ∀ c ∈ l, 3 ≤ c) (hfree : ∀ c ∈ l, ¬s.volume.Owned c) :
    ∃ ws, Wrote s s₁ ws ∧ ∀ w ∈ ws, Harmless s.volume w := by
  obtain ⟨ws, hws, hcells⟩ := h.writes
  refine ⟨ws, hws, fun w hw => ?_⟩
  obtain ⟨c, hc, hcase⟩ := hcells w hw
  refine ⟨c, hc, ?_⟩
  rcases hcase with ⟨hc1, hkeep⟩ | hmem
  · refine .inl ⟨hc1, fun d hd => ?_⟩
    rw [hkeep d, hs.cached]
    intro hmem
    rcases hd with hlt | ho
    · exact absurd (hge d hmem) (not_le.mpr hlt)
    · exact hfree d hmem ho
  · exact .inr ⟨hge c hmem, hfree c hmem⟩

theorem newEntry_isFolder (request : DriverRequest) (c : Cell) :
    (newEntry request c).IsFolder ↔ request.bufferSize = 0 := by
  by_cases h : request.bufferSize = 0 <;> simp [newEntry, DirectoryEntry.IsFolder, h, attrSubdirectory]

theorem newEntry_cluster (request : DriverRequest) (c : Cell) :
    (newEntry request c).cluster = c.number := cluster_halves _ _ rfl rfl

theorem newEntry_chainLength (request : DriverRequest) (c : Cell) :
    Volume.chainLength (newEntry request c) = (requiredSlots request.bufferSize).toNat := by
  by_cases h : request.bufferSize = 0
  · rw [Volume.chainLength, if_pos ((newEntry_isFolder request c).mpr h), h, requiredSlots_folder]
    rfl
  · rw [Volume.chainLength, if_neg (fun hf => h ((newEntry_isFolder request c).mp hf)),
      requiredSlots, if_neg h]
    rfl

namespace Written
variable {request : DriverRequest} {s : Storage} {p : Cell} {k : Fin 64} {c : Cell}
  {rest : List Cell}

theorem not_used (w : Written request s p k c rest) (hs : s.Consistent) {d : Cell}
    (hd : d ∈ c :: rest) : ¬(d < 3 ∨ s.volume.Owned d) := by
  intro hused
  apply hs.wellFormed.used_ne_empty hused
  rw [hs.cached]
  exact w.empty d hd

theorem reserved (w : Written request s p k c rest) (hs : s.Consistent) {d : Cell}
    (hd : d ∈ c :: rest) : 3 ≤ d := not_lt.mp fun hlt => w.not_used hs hd (.inl hlt)

theorem unowned (w : Written request s p k c rest) (hs : s.Consistent) {d : Cell}
    (hd : d ∈ c :: rest) : ¬s.volume.Owned d := fun ho => w.not_used hs hd (.inr ho)

theorem one_not_mem (w : Written request s p k c rest) (hs : s.Consistent) : (1 : Cell) ∉ c :: rest :=
  fun h => absurd (w.reserved hs h) (by decide)

theorem slot_ge (w : Written request s p k c rest) (hs : s.Consistent) (hp : s.volume.Existing p) :
    2 ≤ k := by
  have h1 : k ≠ 1 := by
    rintro rfl
    exact w.free (hs.wellFormed.links hp).2
  have h0 := w.slot
  rw [Fin.le_def]
  simp only [ne_eq, Fin.ext_iff] at h0 h1
  have : ((2 : Fin 64) : ℕ) = 2 := rfl
  omega

theorem rest_eq_nil (w : Written request s p k c rest) (h0 : request.bufferSize = 0) : rest = [] := by
  have hlen := w.length
  rw [h0, requiredSlots_folder, List.length_cons] at hlen
  have hrest : rest.length + 1 = 1 := hlen
  exact List.length_eq_zero_iff.mp (by omega)

theorem prepared (w : Written request s p k c rest) (hs : s.Consistent) (mem : Memory) :
    Prepared s (writeData mem request c rest s) (c :: rest) := by
  by_cases h0 : request.bufferSize = 0
  · rw [writeData, if_pos h0, w.rest_eq_nil h0]
    exact writeFolder_prepared request c s
  · rw [writeData, if_neg h0]
    exact writeFile_prepared mem (w.one_not_mem hs) request.buf hs.cached

theorem agrees (w : Written request s p k c rest) (hs : s.Consistent) (mem : Memory) :
    s.volume.Agrees (writeData mem request c rest s).volume :=
  (w.prepared hs mem).agrees hs (fun _ => w.reserved hs) (fun _ => w.unowned hs)

theorem free_count (w : Written request s p k c rest) (hs : s.Consistent) (mem : Memory) :
    (freeCells (writeResult mem request s p k c rest).clusterMap).length +
      (c :: rest).length = (freeCells s.clusterMap).length := by
  have hmap : (writeResult mem request s p k c rest).clusterMap = _ := (w.prepared hs mem).map
  have hname : ∀ d ∈ c :: rest, d.number ≠ fatEmptyEntry := by
    intro d hd h0
    have hge : 3 ≤ d.val := w.reserved hs hd
    have hzero : d.val = 0 := by rw [← d.number_toNat, h0]; rfl
    omega
  rw [freeCells_length, freeCells_length, hmap]
  exact cellCount_link w.nodup w.empty hname (by decide)

/-- After the data phase the new entry is ready to be linked. -/
theorem fits (w : Written request s p k c rest) (hs : s.Consistent) (hp : s.volume.Existing p)
    (mem : Memory) : (writeData mem request c rest s).volume.Fits p k (newEntry request c)
      (c :: rest) := by
  have hagree := w.agrees hs mem
  have hprep := w.prepared hs mem
  have htable := hagree.table_eq hs.wellFormed hp
  refine
    { existing := (hagree.existing_iff hs.wellFormed p).mp hp
      slot := w.slot_ge hs hp
      free := by rw [htable]; exact w.free
      live := rfl
      fresh := ?_
      chain := ?_
      ne_nil := List.cons_ne_nil c rest
      reserved := fun d => w.reserved hs
      unowned := ?_
      length := w.length.trans (newEntry_chainLength request c).symm
      folder := ?_ }
  · intro i _ hname hext
    rw [htable] at hname hext
    exact w.fresh i ⟨hname, hext⟩
  · rw [Volume.EntryChain, newEntry_cluster, hprep.cached, hprep.map]
    exact link_isChain w.nodup s.clusterMap
  · intro d hd ho
    exact w.unowned hs hd ((hagree.owned_iff hs.wellFormed d).mpr ho)
  · intro hf d hd
    have h0 := (newEntry_isFolder request c).mp hf
    rw [w.rest_eq_nil h0, List.mem_singleton] at hd
    obtain rfl := hd
    have hd1 : d ≠ 1 := by
      rintro rfl
      exact w.one_not_mem hs List.mem_cons_self
    rw [writeData, if_pos h0]
    exact writeFolder_fresh request hd1 s

/-- The last write of the operation links the entry. -/
theorem volume (w : Written request s p k c rest) (hs : s.Consistent) (hp : s.volume.Existing p)
    (mem : Memory) : (writeResult mem request s p k c rest).volume =
      (writeData mem request c rest s).volume.setEntry p k (newEntry request c) := by
  rw [writeResult, volume_writeClusters, Volume.setEntry, (w.agrees hs mem).table_eq hs.wellFormed hp]

theorem consistent (w : Written request s p k c rest) (hs : s.Consistent) (hp : s.volume.Existing p)
    (mem : Memory) : (writeResult mem request s p k c rest).Consistent := by
  have hwell := (w.agrees hs mem).wellFormed hs.wellFormed
  have hfits := w.fits hs hp mem
  constructor
  · rw [w.volume hs hp mem]
    exact hfits.wellFormed hwell
  · rw [w.volume hs hp mem, Volume.fat_setEntry (hfits.parent_ne_one hwell),
      (w.prepared hs mem).cached]
    rfl

end Written

structure EntryWritten (request : DriverRequest) (v : Volume) (p : Cell) (k : Fin 64)
    (l : List Cell) : Prop where
  entry : v.LiveEntry p k
  named : request.Matches (v.table p k)
  kind : (v.table p k).IsFolder ↔ request.bufferSize = 0
  size : (v.table p k).filesize = request.bufferSize
  chain : v.EntryChain (v.table p k) l

theorem Written.entryWritten {request : DriverRequest} {s : Storage} {p : Cell} {k : Fin 64}
    {c : Cell} {rest : List Cell} (w : Written request s p k c rest) (hs : s.Consistent)
    (hp : s.volume.Existing p) (mem : Memory) :
    EntryWritten request (writeResult mem request s p k c rest).volume p k (c :: rest) := by
  have hwell := (w.agrees hs mem).wellFormed hs.wellFormed
  have hfits := w.fits hs hp mem
  refine ⟨?_, ?_, ?_, ?_, ?_⟩
  · rw [w.volume hs hp mem]
    exact (hfits.liveEntry_iff hwell p k).mpr (.inr rfl)
  · rw [writeResult_entry]
    exact ⟨rfl, rfl⟩
  · rw [writeResult_entry, newEntry_isFolder]
  · rw [writeResult_entry]
    rfl
  · rw [writeResult_entry, w.volume hs hp mem,
      Volume.entryChain_setEntry (hfits.parent_ne_one hwell)]
    exact hfits.chain

end Os2024.FileSystem
