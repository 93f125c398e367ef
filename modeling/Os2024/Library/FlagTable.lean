import Mathlib.Tactic
import Mathlib.Data.Fintype.Card
import Mathlib.Data.Finset.Card

/-! # Tables of flags

A resource with finitely many units is kept as one flag for each unit, set while
the unit is taken. A first-fit search returns a unit whose flag is clear, and the
number of clear flags moves by one with every unit taken or returned.
-/

namespace Os2024.Library.FlagTable

variable {ι : Type*}

def firstClear (flags : ι → Bool) (units : List ι) : Option ι := units.find? (fun i => flags i = false)

theorem firstClear_mem {flags : ι → Bool} {units : List ι} {i : ι}
    (h : firstClear flags units = some i) : i ∈ units := List.mem_of_find?_eq_some h

theorem firstClear_clear {flags : ι → Bool} {units : List ι} {i : ι}
    (h : firstClear flags units = some i) : flags i = false := by
  have hsome := List.find?_some h
  exact of_decide_eq_true hsome

theorem firstClear_eq_none {flags : ι → Bool} {units : List ι} :
    firstClear flags units = none ↔ ∀ i ∈ units, flags i = true := by
  simp [firstClear]

def clearCount (units : Finset ι) (flags : ι → Bool) : ℕ :=
  (units.filter fun i => flags i = false).card

variable {units : Finset ι} {flags : ι → Bool} {i : ι}

theorem clearCount_pos (hi : i ∈ units) (h : flags i = false) : 0 < clearCount units flags :=
  Finset.card_pos.mpr ⟨i, Finset.mem_filter.mpr ⟨hi, h⟩⟩

theorem clearCount_eq_zero : clearCount units flags = 0 ↔ ∀ i ∈ units, flags i = true := by
  rw [clearCount, Finset.card_eq_zero, Finset.filter_eq_empty_iff]
  simp

theorem clearCount_le : clearCount units flags ≤ units.card := Finset.card_filter_le _ _

def setCount (units : Finset ι) (flags : ι → Bool) : ℕ :=
  (units.filter fun i => flags i = true).card

theorem setCount_add_clearCount (units : Finset ι) (flags : ι → Bool) :
    setCount units flags + clearCount units flags = units.card := by
  have hsplit := units.card_filter_add_card_filter_not (fun i => flags i = true)
  simpa only [setCount, clearCount, Bool.not_eq_true] using hsplit

/-- A search through all units of the set fails exactly when the count is zero. -/
theorem firstClear_isNone {l : List ι} (hl : ∀ j, j ∈ l ↔ j ∈ units) :
    firstClear flags l = none ↔ clearCount units flags = 0 := by
  rw [firstClear_eq_none, clearCount_eq_zero]
  exact forall_congr' fun j => by rw [hl]

section Update
variable [DecidableEq ι]

theorem clearCount_take (hi : i ∈ units) (h : flags i = false) :
    clearCount units (Function.update flags i true) + 1 = clearCount units flags := by
  have hset : (units.filter fun j => Function.update flags i true j = false) =
      (units.filter fun j => flags j = false).erase i := by
    ext j
    by_cases hj : j = i
    · subst j
      simp
    · simp [hj]
  rw [clearCount, clearCount, hset, Finset.card_erase_add_one]
  exact Finset.mem_filter.mpr ⟨hi, h⟩

theorem clearCount_return (hi : i ∈ units) (h : flags i = true) :
    clearCount units (Function.update flags i false) = clearCount units flags + 1 := by
  have hback : Function.update (Function.update flags i false) i true = flags := by
    rw [Function.update_idem, ← h, Function.update_eq_self]
  have hclear : Function.update flags i false i = false := Function.update_self ..
  have htake := clearCount_take hi hclear
  rw [hback] at htake
  exact htake.symm

theorem clearCount_return_all {flags' : ι → Bool} {returned : Finset ι} (hsub : returned ⊆ units)
    (hset : ∀ j ∈ returned, flags j = true)
    (h : ∀ j, flags' j = if j ∈ returned then false else flags j) :
    clearCount units flags' = clearCount units flags + returned.card := by
  have hunion : units.filter (fun j => flags' j = false) =
      (units.filter fun j => flags j = false) ∪ returned := by
    ext j
    rw [Finset.mem_filter, Finset.mem_union, Finset.mem_filter, h]
    by_cases hj : j ∈ returned
    · simp [hj, hsub hj]
    · simp [hj]
  have hdisjoint : Disjoint (units.filter fun j => flags j = false) returned := by
    refine Finset.disjoint_left.mpr fun j hj hj' => ?_
    rw [Finset.mem_filter, hset j hj'] at hj
    exact absurd hj.2 (by decide)
  rw [clearCount, clearCount, hunion, Finset.card_union_of_disjoint hdisjoint]

theorem setCount_take (hi : i ∈ units) (h : flags i = false) :
    setCount units (Function.update flags i true) = setCount units flags + 1 := by
  have htake := clearCount_take hi h
  have hold := setCount_add_clearCount units flags
  have hnew := setCount_add_clearCount units (Function.update flags i true)
  omega

theorem setCount_return (hi : i ∈ units) (h : flags i = true) :
    setCount units (Function.update flags i false) + 1 = setCount units flags := by
  have hback := clearCount_return hi h
  have hold := setCount_add_clearCount units flags
  have hnew := setCount_add_clearCount units (Function.update flags i false)
  omega

end Update

end Os2024.Library.FlagTable
