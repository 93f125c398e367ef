import Os2024.FileSystem.Outcomes

/-! # Which bytes reach the disk

`write` copies whole clusters from the caller's pointer. What lies behind the
buffer is copied with its last cluster, so two memories that agree on the buffer
alone can leave different disks behind.
-/

namespace Os2024.FileSystem
open Library.PackedLayout

def AgreeOn (n : ℕ) (buf : UInt32) (mem mem' : Memory) : Prop :=
  ∀ i < n, mem (buf + UInt32.ofNat i) = mem' (buf + UInt32.ofNat i)

/-- What a call that returns leaves to see: its code, the disk image and the FAT. -/
def observed (out : Int8 × Storage) : Int8 × Disk × FileAllocationTable :=
  (out.1, out.2.disk, out.2.clusterMap)

/-- From memories that agree on the buffer `write` returns with the same outcome. Where it indexes
outside an array, its outcome is not a function of anything. -/
def Confined (request : DriverRequest) (s : Storage) : Prop :=
  ∀ mem mem', AgreeOn request.bufferSize.toNat request.buf mem mem' →
    ∃ out out', write mem request s = .ok out ∧ write mem' request s = .ok out' ∧
      observed out = observed out'

theorem AgreeOn.mono {n m : ℕ} {buf : UInt32} {mem mem' : Memory} (h : AgreeOn n buf mem mem')
    (hm : m ≤ n) : AgreeOn m buf mem mem' := fun i hi => h i (hi.trans_le hm)

theorem AgreeOn.load {n : ℕ} {buf : UInt32} {mem mem' : Memory} (h : AgreeOn n buf mem mem') :
    mem.load n buf = mem'.load n buf := by
  funext i
  exact h i i.isLt

/-- The rest of the buffer begins one cluster on. -/
theorem AgreeOn.advance {n : ℕ} {buf : UInt32} {mem mem' : Memory}
    (h : AgreeOn (2048 + n) buf mem mem') : AgreeOn n (buf + clusterSize) mem mem' := by
  intro i hi
  have hnext := h (2048 + i) (by omega)
  rw [UInt32.ofNat_add, ← add_assoc] at hnext
  exact hnext

/-- The file branch loads one cluster for each cell. -/
theorem writeFile_congr {mem mem' : Memory} {l : List Cell} {buf : UInt32}
    (h : AgreeOn (2048 * l.length) buf mem mem') (s : Storage) :
    writeFile mem l buf s = writeFile mem' l buf s := by
  induction l generalizing buf s with
  | nil => rfl
  | cons c l ih =>
    rw [List.length_cons, Nat.mul_succ, add_comm] at h
    have hload := (h.mono (Nat.le_add_right 2048 _)).load
    simp only [writeFile, hload]
    exact ih h.advance _

/-- Nothing is written over the last cluster of the chain, whatever the table holds. -/
theorem writeFile_last (mem : Memory) {l : List Cell} (hl : l ≠ []) (buf : UInt32) (s : Storage) :
    (writeFile mem l buf s).volume (l.getLast hl) =
      mem.load 2048 (buf + UInt32.ofNat (2048 * (l.length - 1))) := by
  induction l generalizing buf s with
  | nil => exact absurd rfl hl
  | cons c l ih =>
    cases l with
    | nil => simp [writeFile, volume_writeClusters]
    | cons d l =>
      rw [writeFile, List.getLast_cons (List.cons_ne_nil d l), ih]
      refine congrArg (mem.load 2048) ?_
      rw [List.length_cons, List.length_cons, List.length_cons, Nat.add_sub_cancel,
        Nat.add_sub_cancel, Nat.mul_succ, UInt32.ofNat_add, add_assoc,
        add_comm (UInt32.ofNat (2048 * l.length))]
      rfl

theorem FirstFree.unique {t : DirectoryTable} {j k : Fin 64} (hj : FirstFree t j)
    (hk : FirstFree t k) : j = k := by
  rcases lt_trichotomy j k with hlt | heq | hgt
  · exact absurd (hk.before j hlt hj.pos) hj.free
  · exact heq
  · exact absurd (hj.before k hgt hk.pos) hk.free

section TwoRuns
variable {request : DriverRequest} {s : Storage}

theorem write_congr {mem mem' : Memory}
    (h : ∀ p c rest, Accepts request s p → request.bufferSize ≠ 0 →
      (c :: rest).length = (requiredSlots request.bufferSize).toNat →
      writeFile mem (c :: rest) request.buf s = writeFile mem' (c :: rest) request.buf s) :
    write mem request s = write mem' request s := by
  by_cases hbound : request.parentClusterNumber.toNat < 512
  · obtain ⟨p, hp⟩ : ∃ p : Cell, request.parentClusterNumber = p.number :=
      ⟨⟨_, hbound⟩, UInt32.toNat_inj.mp (by simp)⟩
    rw [write, write, hp, cellAt_number]
    dsimp only
    rw [directoryTable_number]
    by_cases hcell : s.clusterMap p = fatEndOfFile
    swap
    · simp [hcell]
    rw [if_neg (not_not.mpr hcell), if_neg (not_not.mpr hcell)]
    cases hscan : scanSlots request (s.volume.table p) (List.finRange 64) 0 with
    | none => rfl
    | some k =>
      dsimp only
      by_cases hk : k = 0
      · simp [hk]
      rw [if_neg hk, if_neg hk, countEmptyFatSlots_eq, ← freeCells]
      have hlength := List.length_take
        (i := (requiredSlots request.bufferSize).toNat) (l := freeCells s.clusterMap)
      generalize (freeCells s.clusterMap).take _ = slots at hlength
      by_cases hfew : slots.length < (requiredSlots request.bufferSize).toNat
      · rw [if_pos hfew, if_pos hfew]
      rw [if_neg hfew, if_neg hfew]
      cases slots with
      | nil => rfl
      | cons c rest =>
        dsimp only
        by_cases h0 : request.bufferSize = 0
        · rw [if_pos h0, if_pos h0]
        · have hslot := scanSlots_firstFree hscan hk
          have haccepts : Accepts request s p :=
            ⟨hp, hcell, (scanSlots_eq_some hscan).1, ⟨k, hk, hslot.free⟩, by omega⟩
          rw [if_neg h0, if_neg h0, h p c rest haccepts h0 (by omega)]
  · simp [write, cellAt, hbound]

/-- How many bytes of the file branch's loads lie behind the buffer is decided by the size alone. -/
theorem loaded_le {size : UInt32} (h : size.toNat % 2048 = 0 ∨ maxFileSize < size.toNat)
    (h0 : size ≠ 0) : 2048 * (requiredSlots size).toNat ≤ size.toNat := by
  rcases Nat.lt_or_ge maxFileSize size.toNat with hlarge | hsmall
  · have hcount := (requiredSlots size).toNat_lt
    have hmax : maxFileSize = 522240 := rfl
    omega
  · have hmax : maxFileSize = 522240 := rfl
    rw [requiredSlots_of_file h0 (by omega), clustersFor]
    omega

/-- `write` stays within its arrays when its parent is in the table and its 8-bit cluster count is
not 0, or it refuses the request. -/
theorem write_returns_iff (mem : Memory) : (∃ out, write mem request s = .ok out) ↔
    request.parentClusterNumber.toNat < 512 ∧
      ((∀ p, ¬Accepts request s p) ∨ requiredSlots request.bufferSize ≠ 0) := by
  by_cases hbound : request.parentClusterNumber.toNat < 512
  swap
  · simp [write, cellAt, hbound]
  obtain ⟨p, hp⟩ : ∃ p : Cell, request.parentClusterNumber = p.number :=
    ⟨⟨_, hbound⟩, UInt32.toNat_inj.mp (by simp)⟩
  have hout := write_outcome mem s hp
  generalize write mem request s = out at hout
  have hunique : ∀ q, Accepts request s q → q = p := fun q hq =>
    Cell.number_injective (hq.parent.symm.trans hp)
  have hrefused : ¬Accepts request s p →
      (request.parentClusterNumber.toNat < 512 ∧
        ((∀ p, ¬Accepts request s p) ∨ requiredSlots request.bufferSize ≠ 0)) := fun h =>
    ⟨hbound, .inl fun q hq => h (hunique q hq ▸ hq)⟩
  cases hout with
  | refused hcell => exact iff_of_true ⟨_, rfl⟩ (hrefused fun h => hcell h.opened)
  | taken _ hm =>
    obtain ⟨i, hi⟩ := hm
    exact iff_of_true ⟨_, rfl⟩ (hrefused fun h => h.fresh i hi)
  | noSlot _ _ hfull =>
    refine iff_of_true ⟨_, rfl⟩ (hrefused fun h => ?_)
    obtain ⟨i, hi, hfree⟩ := h.slot
    exact hfree (hfull i hi)
  | noRoom _ _ _ hfew =>
    exact iff_of_true ⟨_, rfl⟩ (hrefused fun h => absurd h.room (not_le.mpr hfew))
  | noCell hcell hfresh hslot hzero =>
    have haccepts : Accepts request s p :=
      ⟨hp, hcell, hfresh, ⟨_, hslot.pos, hslot.free⟩, by omega⟩
    refine iff_of_false (by rintro ⟨_, heq⟩; cases heq) ?_
    rintro ⟨-, hnone | hcount⟩
    · exact hnone p haccepts
    · exact hcount (UInt8.toNat_inj.mp hzero)
  | done _ _ _ w =>
    refine iff_of_true ⟨_, rfl⟩ ⟨hbound, .inr fun hzero => ?_⟩
    have hlength := w.length
    rw [hzero] at hlength
    cases hlength

theorem confined_of_congr (hreturns : ∀ mem, ∃ out, write mem request s = .ok out)
    (h : ∀ mem mem', AgreeOn request.bufferSize.toNat request.buf mem mem' →
      write mem request s = write mem' request s) : Confined request s := by
  intro mem mem' hagree
  obtain ⟨out, hout⟩ := hreturns mem
  exact ⟨out, out, hout, (h mem mem' hagree).symm.trans hout, rfl⟩

/-- An accepted file is written to the same slot and the same cells from every memory. -/
theorem Accepts.write_eq {p : Cell} (h : Accepts request s p)
    (hpos : 0 < (requiredSlots request.bufferSize).toNat) :
    ∃ k c rest, Written request s p k c rest ∧
      ∀ mem, write mem request s = .ok (0, writeResult mem request s p k c rest) := by
  obtain ⟨i, hi, hfree⟩ := h.slot
  have hdone : ∀ mem, ∃ k c rest, FirstFree (s.volume.table p) k ∧
      c :: rest = (freeCells s.clusterMap).take (requiredSlots request.bufferSize).toNat ∧
      Written request s p k c rest ∧
      write mem request s = .ok (0, writeResult mem request s p k c rest) := by
    intro mem
    obtain ⟨s', hwrite⟩ := write_succeeds mem h.parent h.opened h.fresh hi hfree hpos h.room
    have hout := write_outcome mem s h.parent
    rw [hwrite] at hout ⊢
    generalize hr : (0 : Int8) = r at hout
    cases hout with
    | done _ hslot hcells w => exact ⟨_, _, _, hslot, hcells, w, rfl⟩
    | _ => exact absurd hr (by decide)
  obtain ⟨k, c, rest, hslot, hcells, w, -⟩ := hdone (fun _ => 0)
  refine ⟨k, c, rest, w, fun mem => ?_⟩
  obtain ⟨k', c', rest', hslot', hcells', -, hwrite⟩ := hdone mem
  obtain rfl : k' = k := hslot'.unique hslot
  obtain ⟨rfl, rfl⟩ := List.cons.inj (hcells'.trans hcells.symm)
  exact hwrite

theorem writeResult_last {p : Cell} {k : Fin 64} {c : Cell} {rest : List Cell}
    (w : Written request s p k c rest) (hopen : s.clusterMap p = fatEndOfFile)
    (h0 : request.bufferSize ≠ 0) (mem : Memory) :
    (writeResult mem request s p k c rest).volume ((c :: rest).getLast (List.cons_ne_nil c rest)) =
      mem.load 2048 (request.buf +
        UInt32.ofNat (2048 * ((requiredSlots request.bufferSize).toNat - 1))) := by
  have hne : (c :: rest).getLast (List.cons_ne_nil c rest) ≠ p := by
    intro heq
    have hempty := w.empty _ (List.getLast_mem (List.cons_ne_nil c rest))
    rw [heq, hopen] at hempty
    exact absurd hempty (by decide)
  rw [writeResult, volume_writeClusters, Function.update_of_ne hne, writeData, if_neg h0,
    writeFile_last, w.length]

theorem agreeOn_update {size : UInt32} {buf : UInt32} (mem : Memory) (b : UInt8) :
    AgreeOn size.toNat buf mem (Function.update mem (buf + size) b) := by
  intro i hi
  have hlt := size.toNat_lt
  have hne : buf + UInt32.ofNat i ≠ buf + size := by
    intro heq
    have hval := congrArg UInt32.toNat (add_left_cancel heq)
    rw [UInt32.toNat_ofNat'] at hval
    omega
  rw [Function.update_of_ne hne]

/-- A size that is no multiple of 2048 leaves room behind the buffer in the last cluster. -/
theorem not_confined {p : Cell} (h : Accepts request s p)
    (hodd : request.bufferSize.toNat % 2048 ≠ 0)
    (hsmall : request.bufferSize.toNat ≤ maxFileSize) : ¬Confined request s := by
  intro hconfined
  have h0 : request.bufferSize ≠ 0 := by
    intro hzero
    rw [hzero] at hodd
    exact hodd rfl
  have hmax : maxFileSize = 522240 := rfl
  have hcount : (requiredSlots request.bufferSize).toNat = (request.bufferSize.toNat + 2047) / 2048 := by
    rw [requiredSlots_of_file h0 (by omega), clustersFor]
    omega
  obtain ⟨k, c, rest, w, hwrite⟩ := h.write_eq (by omega)
  let mem : Memory := fun _ => 0
  let mem' : Memory := Function.update mem (request.buf + request.bufferSize) 1
  obtain ⟨out, out', hout, hout', hobserved⟩ := hconfined mem mem' (agreeOn_update mem 1)
  obtain rfl := Except.ok.inj ((hwrite mem).symm.trans hout)
  obtain rfl := Except.ok.inj ((hwrite mem').symm.trans hout')
  have hdisk : (writeResult mem request s p k c rest).disk =
      (writeResult mem' request s p k c rest).disk :=
    congrArg (fun seen => seen.2.1) hobserved
  have hlast := writeResult_last w h.opened h0
  have hvolume : mem.load 2048 (request.buf + UInt32.ofNat (2048 *
        ((requiredSlots request.bufferSize).toNat - 1))) =
      mem'.load 2048 (request.buf + UInt32.ofNat (2048 *
        ((requiredSlots request.bufferSize).toNat - 1))) := by
    rw [← hlast mem, ← hlast mem', Storage.volume, Storage.volume, hdisk]
  -- The first byte behind the buffer lies in the last cluster.
  let start := 2048 * ((requiredSlots request.bufferSize).toNat - 1)
  have hstart : start ≤ request.bufferSize.toNat := by omega
  have hoffset : request.bufferSize.toNat - start < 2048 := by omega
  have haddr : request.buf + UInt32.ofNat start +
      UInt32.ofNat (request.bufferSize.toNat - start) = request.buf + request.bufferSize := by
    rw [add_assoc, ← UInt32.ofNat_add, Nat.add_sub_cancel' hstart, UInt32.ofNat_toNat]
  have hbyte := congrFun hvolume ⟨_, hoffset⟩
  change mem (request.buf + UInt32.ofNat start + UInt32.ofNat (request.bufferSize.toNat - start)) =
    mem' (request.buf + UInt32.ofNat start + UInt32.ofNat (request.bufferSize.toNat - start)) at hbyte
  have hchanged : mem' (request.buf + request.bufferSize) = 1 := Function.update_self ..
  rw [haddr, hchanged] at hbyte
  exact absurd hbyte (by decide)

theorem Accepts.of_write {p : Cell} (hp : request.parentClusterNumber = p.number) {mem : Memory}
    {s' : Storage} (h : write mem request s = .ok (0, s')) : Accepts request s p := by
  have hout := write_outcome mem s hp
  rw [h] at hout
  generalize hr : (0 : Int8) = r at hout
  cases hout with
  | done hcell hslot hcells w =>
    have hlength := congrArg List.length hcells
    rw [List.length_take, w.length] at hlength
    exact ⟨hp, hcell, w.fresh, ⟨_, hslot.pos, hslot.free⟩, by omega⟩
  | _ => exact absurd hr (by decide)

/-- In every state, reachable or not, `write` stores nothing but the caller's bytes exactly when the
parent is in the table and `write` refuses the request, or its 8-bit cluster count is not 0 and the
size is a multiple of 2048 (also 0, for a folder) or exceeds 255 clusters, so that the count cuts
the file off inside the buffer. -/
theorem write_confined_iff (request : DriverRequest) (s : Storage) :
    Confined request s ↔ request.parentClusterNumber.toNat < 512 ∧
      ((∀ p, ¬Accepts request s p) ∨ requiredSlots request.bufferSize ≠ 0 ∧
        (request.bufferSize.toNat % 2048 = 0 ∨ maxFileSize < request.bufferSize.toNat)) := by
  constructor
  · intro hconfined
    obtain ⟨out, -, hout, -⟩ := hconfined (fun _ => 0) (fun _ => 0) fun _ _ => rfl
    obtain ⟨hbound, hreturns⟩ := (write_returns_iff _).mp ⟨out, hout⟩
    refine ⟨hbound, ?_⟩
    by_contra hnot
    push Not at hnot
    obtain ⟨⟨p, haccepts⟩, hleaks⟩ := hnot
    obtain ⟨hodd, hsmall⟩ := hleaks (hreturns.resolve_left fun hnone => hnone p haccepts)
    exact not_confined haccepts hodd hsmall hconfined
  · rintro ⟨hbound, hrefused | ⟨hcount, hcovered⟩⟩
    · refine confined_of_congr (fun mem => (write_returns_iff mem).mpr ⟨hbound, .inl hrefused⟩)
        fun mem mem' _ => write_congr fun p _ _ haccepts => ?_
      exact absurd haccepts (hrefused p)
    · refine confined_of_congr (fun mem => (write_returns_iff mem).mpr ⟨hbound, .inr hcount⟩)
        fun mem mem' hagree => write_congr fun p c rest _ h0 hlength => ?_
      apply writeFile_congr
      rw [hlength]
      exact hagree.mono (loaded_le hcovered h0)

end TwoRuns

/-- The note of 3000 bytes on a formatted disk: its second cluster ends with 1096 bytes from
behind the buffer. -/
theorem write_leaks_note : noteRequest.Valid (createFat32 blankStorage).volume ∧
    ¬Confined noteRequest (createFat32 blankStorage) := by
  obtain ⟨s', hwrite⟩ := write_note (fun _ => 7)
  have haccepts := Accepts.of_write (p := 2) rfl hwrite
  exact ⟨noteRequest_valid, not_confined haccepts (by decide) (by decide)⟩

end Os2024.FileSystem
