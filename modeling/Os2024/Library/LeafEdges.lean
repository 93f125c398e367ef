import Mathlib.Tactic
import Mathlib.Logic.Relation

/-! # Reachability from a root when leaf edges appear

Two edge relations that agree on everything reachable reach the same points. New
edges that all end in one point without edges of its own can add that point and
nothing else.
-/

namespace Os2024.Library.LeafEdges
open Relation

variable {α : Type*} {r r' : α → α → Prop} {root : α}

theorem reach_of_agree (h : ∀ a, ReflTransGen r root a → ∀ b, r a b → r' a b) {a : α}
    (ha : ReflTransGen r root a) : ReflTransGen r' root a := by
  induction ha with
  | refl => exact .refl
  | tail hb hbc ih => exact ih.tail (h _ hb _ hbc)

/-- Edges that agree on every point reachable through the first relation. -/
theorem reach_congr (h : ∀ a, ReflTransGen r root a → ∀ b, r a b ↔ r' a b) (a : α) :
    ReflTransGen r root a ↔ ReflTransGen r' root a := by
  refine ⟨reach_of_agree (fun b hb c => (h b hb c).mp), fun ha => ?_⟩
  induction ha with
  | refl => exact .refl
  | tail hb hbc ih => exact ih.tail ((h _ ih _).mpr hbc)

/-- When every new edge ends in a point `c` without outgoing edges, nothing but `c` is gained. -/
theorem reach_or_leaf {c : α} (hr : ∀ a b, r' a b → r a b ∨ b = c) (hc : ∀ b, ¬r' c b) {a : α}
    (ha : ReflTransGen r' root a) : ReflTransGen r root a ∨ a = c := by
  induction ha with
  | refl => exact .inl .refl
  | tail _ hbd ih =>
    rcases ih with hb | rfl
    · rcases hr _ _ hbd with hbd | rfl
      · exact .inl (hb.tail hbd)
      · exact .inr rfl
    · exact absurd hbd (hc _)

end Os2024.Library.LeafEdges
