import Mathlib.Tactic
import Mathlib.Data.Fin.Basic

/-! # Taking turns on a ring

The positions of a ring are searched upwards, with wrap-around, from the one after
the current position. Each turn goes to the first member of a set that the search
meets. While a position stays a member, every turn that passes it by comes closer
to it, so it is served within one round, and nobody is served twice before it.
-/

namespace Os2024.Library.CyclicOrder

variable {n : ℕ}

/-- How many positions lie strictly between `a` and `b` on the way up from `a`. -/
def gap (a b : Fin n) : ℕ := (b.val + n - (a.val + 1)) % n

theorem gap_lt (a b : Fin n) : gap a b < n := Nat.mod_lt _ (Nat.zero_lt_of_lt a.isLt)

theorem gap_cases (a b : Fin n) : (a < b ∧ a.val + 1 + gap a b = b.val) ∨
    (b ≤ a ∧ a.val + 1 + gap a b = b.val + n) := by
  have ha := a.isLt
  have hb := b.isLt
  rw [gap, Fin.lt_def, Fin.le_def]
  by_cases h : a.val < b.val
  · refine .inl ⟨h, ?_⟩
    rw [show b.val + n - (a.val + 1) = b.val - (a.val + 1) + n by omega, Nat.add_mod_right,
      Nat.mod_eq_of_lt (by omega)]
    omega
  · refine .inr ⟨not_lt.mp h, ?_⟩
    rw [Nat.mod_eq_of_lt (by omega)]
    omega

theorem gap_injective {a b c : Fin n} (h : gap a b = gap a c) : b = c := by
  have hb := b.isLt
  have hc := c.isLt
  apply Fin.ext
  rcases gap_cases a b with ⟨-, hab⟩ | ⟨-, hab⟩ <;> rcases gap_cases a c with ⟨-, hac⟩ | ⟨-, hac⟩ <;>
    omega

/-- On the way from `a` to `c`, the positions up to and including `b` are left behind. -/
theorem gap_add {a b c : Fin n} (h : gap a b < gap a c) : gap a c = gap a b + 1 + gap b c := by
  have hb := b.isLt
  have hc := c.isLt
  have hlt := gap_lt a c
  have hbc := gap_lt b c
  rcases gap_cases a b with ⟨-, hab⟩ | ⟨-, hab⟩ <;> rcases gap_cases a c with ⟨-, hac⟩ | ⟨-, hac⟩ <;>
    rcases gap_cases b c with ⟨hlt', hgap⟩ | ⟨hle', hgap⟩ <;>
    simp only [Fin.lt_def, Fin.le_def] at * <;> omega

/-- Position `i` is the first member met on the way up from `a`. -/
structure FirstAfter (members : Fin n → Prop) (a i : Fin n) : Prop where
  member : members i
  first : ∀ j, members j → gap a i ≤ gap a j

/-- A turn that passes a member by comes closer to it. -/
theorem FirstAfter.gap_add {members : Fin n → Prop} {a i q : Fin n} (h : FirstAfter members a i)
    (hq : members q) (hne : q ≠ i) : gap a q = gap a i + 1 + gap i q := by
  apply CyclicOrder.gap_add
  exact lt_of_le_of_ne (h.first q hq) fun heq => hne (gap_injective heq).symm

/-- The turns taken from position `a` on, in order; `q` is a member at each of them. -/
inductive Turns (q : Fin n) (a : Fin n) : List (Fin n) → Prop where
  | none : Turns q a []
  | next {l : List (Fin n)} {i : Fin n} {members : Fin n → Prop} (h : Turns q a l)
      (hq : members q) (hi : FirstAfter members (l.getLastD a) i) : Turns q a (l ++ [i])

namespace Turns
variable {q a : Fin n} {l : List (Fin n)}

/-- As long as `q` has not been served, each turn has moved at least one position towards it, and
no position has been passed twice. -/
theorem gap_add (h : Turns q a l) (hq : q ∉ l) :
    ∃ k, l.length ≤ k ∧ gap a q = k + gap (l.getLastD a) q := by
  induction h with
  | none => exact ⟨0, le_rfl, (Nat.zero_add _).symm⟩
  | @next l i members h hmember hi ih =>
    rw [List.mem_append, not_or, List.mem_singleton] at hq
    obtain ⟨k, hk, hgap⟩ := ih hq.1
    refine ⟨k + (gap (l.getLastD a) i + 1), ?_, ?_⟩
    · rw [List.length_append, List.length_singleton]
      omega
    · rw [hgap, hi.gap_add hmember hq.2, List.getLastD_concat]
      omega

/-- A member is served within one round. -/
theorem mem_of_length (h : Turns q a l) (hl : n ≤ l.length) : q ∈ l := by
  by_contra hq
  obtain ⟨k, hk, hgap⟩ := h.gap_add hq
  have hlt := gap_lt a q
  omega

/-- Between two turns of the same position every other member is served. -/
theorem mem_of_return (h : Turns q a (l ++ [a])) (hne : q ≠ a) : q ∈ l := by
  by_contra hq
  have hnot : q ∉ l ++ [a] := by
    rw [List.mem_append, not_or, List.mem_singleton]
    exact ⟨hq, hne⟩
  obtain ⟨k, hk, hgap⟩ := h.gap_add hnot
  rw [List.getLastD_concat] at hgap
  rw [List.length_append, List.length_singleton] at hk
  omega

end Turns

end Os2024.Library.CyclicOrder
