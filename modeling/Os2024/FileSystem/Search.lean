import Os2024.FileSystem.Driver

/-! # What the scans of the driver find

Closed forms of the cluster count, of the search for free cells and of the slot
scan of `write`.
-/

namespace Os2024.FileSystem
open Library.PackedLayout Library.BinaryRounding Library.LinkedCells

/-- Below 2^24 bytes the division is exact and only the 8-bit result type loses clusters. -/
theorem clusterCount_toNat {size : UInt32} (h : size.toNat < 2 ^ 24) :
    (clusterCount size).toNat = (size.toNat + 2047) / 2048 % 256 := by
  have hdiv : floatDiv size clusterSize = (size.toNat : ℚ) / (2048 : ℕ) := by
    rw [floatDiv_pow_two h (k := 11) rfl (by norm_num)]
    norm_num
  rw [clusterCount, ceil, ← apply_ite UInt8.ofInt, hdiv, roundUp_div size.toNat (by norm_num),
    UInt8.ofInt, UInt8.toNat_ofNat']
  omega

theorem requiredSlots_folder : requiredSlots 0 = 1 := by
  have hzero : clusterCount 0 = 0 := UInt8.toNat_inj.mp (clusterCount_toNat (by decide))
  rw [requiredSlots, if_pos rfl, hzero]
  rfl

theorem requiredSlots_pos {size : UInt32} (h : size = 0 ∨ clusterCount size ≠ 0) :
    0 < (requiredSlots size).toNat := by
  by_cases h0 : size = 0
  · rw [h0, requiredSlots_folder]
    decide
  · have hne := h.resolve_left h0
    rw [requiredSlots, if_neg h0, Nat.pos_iff_ne_zero]
    exact fun hzero => hne (UInt8.toNat_inj.mp hzero)

def freeCells (clusterMap : FileAllocationTable) : List Cell :=
  (List.finRange 512).filter fun c => clusterMap c = fatEmptyEntry

theorem freeCells_length (clusterMap : FileAllocationTable) :
    (freeCells clusterMap).length = cellCount fatEmptyEntry clusterMap := by
  have hnodup := (List.nodup_finRange 512).filter fun c => clusterMap c = fatEmptyEntry
  rw [freeCells, cellCount, ← List.toFinset_card_of_nodup hnodup, List.toFinset_filter,
    List.toFinset_finRange]
  simp

/-- The search collects the first free cells in increasing order. -/
theorem countEmptyFatSlots_eq (clusterMap : FileAllocationTable) (required : ℕ) (l : List Cell) :
    countEmptyFatSlots clusterMap required l =
      (l.filter (fun c => clusterMap c = fatEmptyEntry)).take required := by
  induction l generalizing required with
  | nil => simp [countEmptyFatSlots]
  | cons c l ih =>
    cases required with
    | zero => simp [countEmptyFatSlots]
    | succ required =>
      by_cases hc : clusterMap c = fatEmptyEntry
      · simp [countEmptyFatSlots, hc, ih]
      · simp [countEmptyFatSlots, hc, ih]

theorem mem_countEmptyFatSlots {clusterMap : FileAllocationTable} {required : ℕ} {l : List Cell}
    {c : Cell} (hc : c ∈ countEmptyFatSlots clusterMap required l) : clusterMap c = fatEmptyEntry := by
  rw [countEmptyFatSlots_eq] at hc
  simpa using (List.mem_filter.mp (List.mem_of_mem_take hc)).2

theorem countEmptyFatSlots_nodup {clusterMap : FileAllocationTable} {required : ℕ} {l : List Cell}
    (hl : l.Nodup) : (countEmptyFatSlots clusterMap required l).Nodup := by
  rw [countEmptyFatSlots_eq]
  exact (hl.filter _).sublist (List.take_sublist _ _)

/-- The scan stops at a slot of that name, or keeps the first empty slot after slot 0. -/
theorem scanSlots_eq (request : DriverRequest) (t : DirectoryTable) (l : List (Fin 64))
    (e : Fin 64) : scanSlots request t l e =
      if ∃ i ∈ l, request.Matches (t i) then none
      else some (if e = 0 then (l.find? (fun i => ¬(t i).Live ∧ i ≠ 0)).getD 0 else e) := by
  induction l generalizing e with
  | nil => by_cases he : e = 0 <;> simp [scanSlots, he]
  | cons i l ih =>
    by_cases hm : request.Matches (t i)
    · simp [scanSlots, hm]
    · rw [scanSlots]
      by_cases he : e = 0 <;> by_cases hl : (t i).Live <;> rcases eq_or_ne i 0 with rfl | hi <;>
        simp [*]

theorem scanSlots_eq_none {request : DriverRequest} {t : DirectoryTable} :
    scanSlots request t (List.finRange 64) 0 = none ↔ ∃ i, request.Matches (t i) := by
  simp [scanSlots_eq]

theorem scanSlots_eq_some {request : DriverRequest} {t : DirectoryTable} {k : Fin 64}
    (h : scanSlots request t (List.finRange 64) 0 = some k) :
    (∀ i, ¬request.Matches (t i)) ∧ (k = 0 → ∀ i, i ≠ 0 → (t i).Live) := by
  rw [scanSlots_eq, if_pos rfl] at h
  split_ifs at h with hm
  refine ⟨fun i hi => hm ⟨i, List.mem_finRange i, hi⟩, ?_⟩
  rintro rfl i hi
  cases hf : (List.finRange 64).find? (fun i => ¬(t i).Live ∧ i ≠ 0) with
  | none =>
    have hnone := List.find?_eq_none.mp hf i (List.mem_finRange i)
    by_contra hl
    exact hnone (by simp [hl, hi])
  | some j =>
    rw [hf] at h
    have hsome := List.find?_some hf
    have hj : ¬(t j).Live ∧ j ≠ 0 := by simpa using hsome
    exact absurd (Option.some.inj h) hj.2

theorem find?_finRange_eq_some {n : ℕ} {q : Fin n → Bool} {k : Fin n} :
    (List.finRange n).find? q = some k ↔ q k ∧ ∀ j < k, ¬q j := by
  rw [List.find?_eq_some_iff_getElem]
  simp only [List.getElem_finRange, List.length_finRange, and_congr_right_iff]
  intro _
  constructor
  · rintro ⟨i, hi, rfl, hbefore⟩ j hj
    simpa using hbefore j hj
  · intro hbefore
    exact ⟨k, k.isLt, rfl, fun j hj => by simpa using hbefore ⟨j, hj.trans k.isLt⟩ hj⟩

/-- The slot is free and no lower one is, apart from slot 0. -/
structure FirstFree (t : DirectoryTable) (k : Fin 64) : Prop where
  pos : k ≠ 0
  free : ¬(t k).Live
  before : ∀ j < k, j ≠ 0 → (t j).Live

theorem scanSlots_firstFree {request : DriverRequest} {t : DirectoryTable} {k : Fin 64}
    (h : scanSlots request t (List.finRange 64) 0 = some k) (hk : k ≠ 0) : FirstFree t k := by
  rw [scanSlots_eq, if_pos rfl] at h
  split_ifs at h
  cases hf : (List.finRange 64).find? (fun i => ¬(t i).Live ∧ i ≠ 0) with
  | none =>
    rw [hf] at h
    exact absurd (Option.some.inj h).symm hk
  | some j =>
    rw [hf] at h
    obtain rfl : j = k := Option.some.inj h
    obtain ⟨hj, hbefore⟩ := find?_finRange_eq_some.mp hf
    have hfree : ¬(t j).Live ∧ j ≠ 0 := by simpa using hj
    refine ⟨hk, hfree.1, fun i hi hi0 => ?_⟩
    by_contra hlive
    exact hbefore i hi (by simp [hlive, hi0])

theorem cluster_halves (e : DirectoryEntry) (n : UInt32) (hlow : e.clusterLow = n.toUInt16)
    (hhigh : e.clusterHigh = (n >>> 16).toUInt16) : e.cluster = n := by
  have hn := n.toNat_lt
  have hlow16 : n.toNat % 2 ^ 16 < 2 ^ 16 := Nat.mod_lt _ (by norm_num)
  have hhigh16 : n.toNat / 2 ^ 16 % 2 ^ 16 = n.toNat / 2 ^ 16 := Nat.mod_eq_of_lt (by omega)
  have hfit : (n.toNat / 2 ^ 16) <<< 16 % 2 ^ 32 = (n.toNat / 2 ^ 16) <<< 16 := by
    rw [Nat.shiftLeft_eq]
    omega
  apply UInt32.toNat_inj.mp
  rw [DirectoryEntry.cluster, hlow, hhigh]
  simp only [UInt32.toNat_or, UInt32.toNat_shiftLeft, UInt16.toNat_toUInt32, UInt32.toNat_toUInt16,
    UInt32.toNat_shiftRight, UInt32.reduceToNat, Nat.reduceMod]
  rw [Nat.shiftRight_eq_div_pow, hhigh16, hfit, ← Nat.shiftLeft_add_eq_or_of_lt hlow16,
    Nat.shiftLeft_eq]
  omega

end Os2024.FileSystem
