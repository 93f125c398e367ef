import Mathlib.Tactic
import Mathlib.Data.List.Range

/-! # Loops that update a store in place

Each pass of a counting loop rewrites its own part of a store, possibly from cells
that later passes rewrite. As long as no pass reads what an earlier one has
written, the loop leaves in each part what the pass makes of the old store, and
everything else as it was.
-/

namespace Os2024.Library.LoopUpdates

variable {σ κ α : Type*}

/-- Pass `i` of the loop writes `new i` of the store in the part `on i`. -/
structure Updates (view : σ → κ → α) (pass : σ → ℕ → σ) (on : ℕ → κ → Prop)
    (new : ℕ → (κ → α) → κ → α) (first last : ℕ) : Prop where
  inside : ∀ i s k, first ≤ i → i < last → on i k → view (pass s i) k = new i (view s) k
  outside : ∀ i s k, first ≤ i → i < last → ¬on i k → view (pass s i) k = view s k
  disjoint : ∀ i j k, on i k → on j k → i = j
  /-- What a pass writes does not depend on the parts of earlier passes. -/
  fresh : ∀ i g g' k, on i k → (∀ k', (∀ j, first ≤ j → j < i → ¬on j k') → g k' = g' k') →
    new i g k = new i g' k

namespace Updates
variable {view : σ → κ → α} {pass : σ → ℕ → σ} {on : ℕ → κ → Prop} {new : ℕ → (κ → α) → κ → α}
  {first n : ℕ}

theorem shorter (h : Updates view pass on new first (first + (n + 1))) :
    Updates view pass on new first (first + n) where
  inside i s k hi hlt := h.inside i s k hi (hlt.trans (Nat.lt_succ_self _))
  outside i s k hi hlt := h.outside i s k hi (hlt.trans (Nat.lt_succ_self _))
  disjoint := h.disjoint
  fresh := h.fresh

theorem foldl_outside (h : Updates view pass on new first (first + n)) (s : σ) {k : κ}
    (hk : ∀ i, first ≤ i → i < first + n → ¬on i k) :
    view ((List.range' first n).foldl pass s) k = view s k := by
  induction n with
  | zero => rfl
  | succ n ih =>
    rw [List.range'_concat, List.foldl_append, List.foldl_cons, List.foldl_nil, Nat.one_mul]
    rw [h.outside _ _ _ (by omega) (by omega) (hk _ (by omega) (by omega))]
    exact ih h.shorter fun i hi hlt => hk i hi (by omega)

theorem foldl_inside (h : Updates view pass on new first (first + n)) (s : σ) {i : ℕ} {k : κ}
    (hfirst : first ≤ i) (hlast : i < first + n) (hon : on i k) :
    view ((List.range' first n).foldl pass s) k = new i (view s) k := by
  induction n with
  | zero => omega
  | succ n ih =>
    rw [List.range'_concat, List.foldl_append, List.foldl_cons, List.foldl_nil, Nat.one_mul]
    by_cases hi : i = first + n
    · subst i
      rw [h.inside _ _ _ (by omega) hlast hon]
      apply h.fresh _ _ _ _ hon
      intro k' hk'
      exact h.shorter.foldl_outside s hk'
    · have hnot : ¬on (first + n) k := fun hon' => hi (h.disjoint _ _ _ hon hon')
      rw [h.outside _ _ _ (by omega) (by omega) hnot]
      exact ih h.shorter (by omega)

end Updates

end Os2024.Library.LoopUpdates
