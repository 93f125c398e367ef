import Mathlib.Tactic
import Mathlib.Data.Fintype.Card
import Mathlib.Data.List.Nodup
import Mathlib.Logic.Function.Basic

/-! # Chains threaded through a table of links

A table `cells : ι → ν` holds in each cell the name of the next cell or a stop
mark. Following the links from a value visits a list of cells. The chain of a
value is unique and never repeats a cell, a table that agrees on the visited
cells has the same chain, and linking fresh cells one by one builds one. Clearing
the cells takes the linking back, and the number of clear cells moves by their
number.
-/

namespace Os2024.Library.LinkedCells

variable {ι ν : Type*} (name : ι → ν) (stop : ν)

/-- Following the links from `v` visits exactly `l` and then meets the stop mark. -/
def IsChain (cells : ι → ν) (v : ν) : List ι → Prop
  | [] => v = stop
  | i :: l => v = name i ∧ IsChain cells (cells i) l

variable {name stop}

theorem IsChain.unique (hname : Function.Injective name) (hstop : ∀ i, name i ≠ stop)
    {cells : ι → ν} {v : ν} {l l' : List ι} (h : IsChain name stop cells v l)
    (h' : IsChain name stop cells v l') : l = l' := by
  induction l generalizing v l' with
  | nil =>
    cases l' with
    | nil => rfl
    | cons j l' => exact absurd (h'.1.symm.trans h) (hstop j)
  | cons i l ih =>
    cases l' with
    | nil => exact absurd (h.1.symm.trans h') (hstop i)
    | cons j l' =>
      obtain rfl : i = j := hname (h.1.symm.trans h'.1)
      rw [ih h.2 h'.2]

/-- A cell on a chain starts the rest of that chain. -/
theorem IsChain.suffix {cells : ι → ν} {v : ν} {l : List ι} (h : IsChain name stop cells v l)
    {i : ι} (hi : i ∈ l) : ∃ r, IsChain name stop cells (name i) (i :: r) ∧ (i :: r) <:+ l := by
  induction l generalizing v with
  | nil => cases hi
  | cons j l ih =>
    rcases List.mem_cons.mp hi with rfl | hi
    · exact ⟨l, ⟨rfl, h.2⟩, List.suffix_refl _⟩
    · obtain ⟨r, hr, hs⟩ := ih h.2 hi
      exact ⟨r, hr, hs.trans (List.suffix_cons j l)⟩

theorem IsChain.nodup (hname : Function.Injective name) (hstop : ∀ i, name i ≠ stop)
    {cells : ι → ν} {v : ν} {l : List ι} (h : IsChain name stop cells v l) : l.Nodup := by
  induction l generalizing v with
  | nil => exact List.nodup_nil
  | cons i l ih =>
    refine List.nodup_cons.mpr ⟨fun hi => ?_, ih h.2⟩
    obtain ⟨r, hr, hs⟩ := h.2.suffix hi
    have hrl : i :: r = i :: l := hr.unique hname hstop ⟨rfl, h.2⟩
    have hlen := hs.length_le
    rw [hrl, List.length_cons] at hlen
    omega

/-- Only the visited cells matter. -/
theorem IsChain.congr {cells cells' : ι → ν} {v : ν} {l : List ι}
    (h : IsChain name stop cells v l) (heq : ∀ i ∈ l, cells' i = cells i) :
    IsChain name stop cells' v l := by
  induction l generalizing v with
  | nil => exact h
  | cons i l ih =>
    refine ⟨h.1, ?_⟩
    rw [heq i List.mem_cons_self]
    exact ih h.2 (fun j hj => heq j (List.mem_cons_of_mem i hj))

theorem IsChain.last {cells : ι → ν} {v : ν} {l : List ι} (h : IsChain name stop cells v l)
    (hl : l ≠ []) : cells (l.getLast hl) = stop := by
  induction l generalizing v with
  | nil => exact absurd rfl hl
  | cons i l ih =>
    cases l with
    | nil => exact h.2
    | cons j l =>
      rw [List.getLast_cons (List.cons_ne_nil j l)]
      exact ih h.2 (List.cons_ne_nil j l)

theorem IsChain.getLast_of_stop (hname : Function.Injective name) (hstop : ∀ i, name i ≠ stop)
    {cells : ι → ν} {v : ν} {l : List ι} (h : IsChain name stop cells v l) {i : ι} (hi : i ∈ l)
    (hcell : cells i = stop) : ∃ hl : l ≠ [], l.getLast hl = i := by
  obtain ⟨r, hr, hs⟩ := h.suffix hi
  have hend : IsChain name stop cells (cells i) [] := hcell
  have hnil : r = [] := hr.2.unique hname hstop hend
  subst r
  obtain ⟨pre, rfl⟩ := hs
  exact ⟨by simp, by simp⟩

theorem IsChain.cell {cells : ι → ν} {v : ν} {l : List ι} (h : IsChain name stop cells v l)
    {i : ι} (hi : i ∈ l) : cells i = stop ∨ ∃ j ∈ l, cells i = name j := by
  obtain ⟨r, hr, hs⟩ := h.suffix hi
  cases r with
  | nil => exact .inl hr.2
  | cons j r => exact .inr ⟨j, hs.subset (by simp), hr.2.1⟩

section Update
variable [DecidableEq ι]

def head (name : ι → ν) (stop : ν) : List ι → ν
  | [] => stop
  | i :: _ => name i

def link (name : ι → ν) (stop : ν) : List ι → (ι → ν) → (ι → ν)
  | [], cells => cells
  | i :: l, cells => link name stop l (Function.update cells i (head name stop l))

theorem link_outside {l : List ι} {cells : ι → ν} {i : ι} (hi : i ∉ l) :
    link name stop l cells i = cells i := by
  induction l generalizing cells with
  | nil => rfl
  | cons j l ih =>
    rw [List.mem_cons, not_or] at hi
    rw [link, ih hi.2, Function.update_of_ne hi.1]

theorem link_isChain {l : List ι} (hl : l.Nodup) (cells : ι → ν) :
    IsChain name stop (link name stop l cells) (head name stop l) l := by
  induction l generalizing cells with
  | nil => rfl
  | cons i l ih =>
    obtain ⟨hi, hl⟩ := List.nodup_cons.mp hl
    refine ⟨rfl, ?_⟩
    rw [link, link_outside hi, Function.update_self]
    exact ih hl _

def clear (v : ν) (l : List ι) (cells : ι → ν) : ι → ν := fun i => if i ∈ l then v else cells i

theorem clear_cons (v : ν) (i : ι) (l : List ι) (cells : ι → ν) :
    clear v (i :: l) cells = clear v l (Function.update cells i v) := by
  funext j
  by_cases hj : j = i
  · subst j
    simp [clear]
  · simp [clear, hj]

theorem clear_of_mem {v : ν} {l : List ι} {cells : ι → ν} {i : ι} (hi : i ∈ l) :
    clear v l cells i = v := if_pos hi

theorem clear_of_not_mem {v : ν} {l : List ι} {cells : ι → ν} {i : ι} (hi : i ∉ l) :
    clear v l cells i = cells i := if_neg hi

/-- Linking clear cells and clearing them again leaves the table as it was. -/
theorem clear_link {v : ν} {l : List ι} {cells : ι → ν} (hl : ∀ i ∈ l, cells i = v) :
    clear v l (link name stop l cells) = cells := by
  ext1 i
  by_cases hi : i ∈ l
  · rw [clear_of_mem hi, hl i hi]
  · rw [clear_of_not_mem hi, link_outside hi]

theorem link_ne {v : ν} {l : List ι} (hl : l.Nodup) (hname : ∀ i ∈ l, name i ≠ v) (hstop : stop ≠ v)
    (cells : ι → ν) {i : ι} (hi : i ∈ l) : link name stop l cells i ≠ v := by
  rcases (link_isChain hl cells).cell hi with h | ⟨j, hj, h⟩
  · rw [h]
    exact hstop
  · rw [h]
    exact hname j hj

end Update

section Count
variable [Fintype ι] [DecidableEq ι] [DecidableEq ν]

def cellCount (v : ν) (cells : ι → ν) : ℕ := (Finset.univ.filter fun i => cells i = v).card

theorem cellCount_clear {v : ν} {l : List ι} {cells : ι → ν} (hl : l.Nodup)
    (hused : ∀ i ∈ l, cells i ≠ v) : cellCount v (clear v l cells) = cellCount v cells + l.length := by
  have hsplit : (Finset.univ.filter fun i => clear v l cells i = v) =
      (Finset.univ.filter fun i => cells i = v) ∪ l.toFinset := by
    ext i
    by_cases hi : i ∈ l <;> simp [clear, hi]
  have hdisjoint : Disjoint (Finset.univ.filter fun i => cells i = v) l.toFinset := by
    rw [Finset.disjoint_left]
    intro i hi hil
    exact hused i (List.mem_toFinset.mp hil) (Finset.mem_filter.mp hi).2
  rw [cellCount, hsplit, Finset.card_union_of_disjoint hdisjoint, List.toFinset_card_of_nodup hl,
    cellCount]

theorem cellCount_link {v : ν} {l : List ι} {cells : ι → ν} (hl : l.Nodup)
    (hclear : ∀ i ∈ l, cells i = v) (hname : ∀ i ∈ l, name i ≠ v) (hstop : stop ≠ v) :
    cellCount v (link name stop l cells) + l.length = cellCount v cells := by
  have hback := cellCount_clear hl fun i => link_ne hl hname hstop cells
  rw [clear_link hclear] at hback
  exact hback.symm

end Count

end Os2024.Library.LinkedCells
