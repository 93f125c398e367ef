import Mathlib.Tactic
import Mathlib.Logic.Function.Basic

/-! # Slots that share no target

Slots in use may hold a target. Every held target is marked as taken and no two
slots in use hold the same one. The rules say how the property survives when a
slot takes an unmarked target, when a slot gives its target back, and when slots
enter or leave use.
-/

namespace Os2024.Library.ExclusiveTargets

variable {κ ν : Type*}

/-- Targets of slots in use are marked and not shared. -/
structure Exclusive (inUse : κ → Prop) (target : κ → Option ν) (marked : ν → Prop) : Prop where
  marked : ∀ {k f}, inUse k → target k = some f → marked f
  injective : ∀ {k k' f}, inUse k → inUse k' → target k = some f → target k' = some f → k = k'

namespace Exclusive
variable {inUse inUse' : κ → Prop} {target target' : κ → Option ν} {marked marked' : ν → Prop}

theorem mono (h : Exclusive inUse target marked)
    (hk : ∀ k f, inUse' k → target' k = some f → inUse k ∧ target k = some f) :
    Exclusive inUse' target' marked where
  marked hk' hf := h.marked (hk _ _ hk' hf).1 (hk _ _ hk' hf).2
  injective hk₁ hk₂ hf₁ hf₂ :=
    h.injective (hk _ _ hk₁ hf₁).1 (hk _ _ hk₂ hf₂).1 (hk _ _ hk₁ hf₁).2 (hk _ _ hk₂ hf₂).2

/-- One slot takes a target that was not marked. -/
theorem assign (h : Exclusive inUse target marked) (k₀ : κ) (f₀ : ν) (hfree : ¬marked f₀)
    (hself : ∀ f, target' k₀ = some f → f = f₀)
    (hother : ∀ k, k ≠ k₀ → target' k = target k)
    (hmark : ∀ f, marked' f ↔ marked f ∨ f = f₀) : Exclusive inUse target' marked' where
  marked := by
    intro k f hk hf
    by_cases hk₀ : k = k₀
    · subst k
      exact (hmark f).mpr (.inr (hself f hf))
    · rw [hother k hk₀] at hf
      exact (hmark f).mpr (.inl (h.marked hk hf))
  injective := by
    intro k k' f hk hk' hf hf'
    by_cases hk₀ : k = k₀ <;> by_cases hk₀' : k' = k₀
    · rw [hk₀, hk₀']
    · subst k
      rw [hother k' hk₀'] at hf'
      exact absurd (h.marked hk' hf') (hself f hf ▸ hfree)
    · subst k'
      rw [hother k hk₀] at hf
      exact absurd (h.marked hk hf) (hself f hf' ▸ hfree)
    · rw [hother k hk₀] at hf
      rw [hother k' hk₀'] at hf'
      exact h.injective hk hk' hf hf'

/-- One slot in use gives its target back. -/
theorem release (h : Exclusive inUse target marked) (k₀ : κ) {f₀ : ν} (hk₀ : inUse k₀)
    (hheld : target k₀ = some f₀) (hself : target' k₀ = none)
    (hother : ∀ k, k ≠ k₀ → target' k = target k)
    (hmark : ∀ f, f ≠ f₀ → marked f → marked' f) : Exclusive inUse target' marked' where
  marked := by
    intro k f hk hf
    have hne : k ≠ k₀ := by
      rintro rfl
      rw [hself] at hf
      cases hf
    rw [hother k hne] at hf
    refine hmark f ?_ (h.marked hk hf)
    rintro rfl
    exact hne (h.injective hk hk₀ hf hheld)
  injective := by
    intro k k' f hk hk' hf hf'
    have hne : k ≠ k₀ := by
      rintro rfl
      rw [hself] at hf
      cases hf
    have hne' : k' ≠ k₀ := by
      rintro rfl
      rw [hself] at hf'
      cases hf'
    rw [hother k hne] at hf
    rw [hother k' hne'] at hf'
    exact h.injective hk hk' hf hf'

end Exclusive

end Os2024.Library.ExclusiveTargets
