import Mathlib.Tactic
import Mathlib.Logic.Relation

/-! # Trees as edge relations

Edges lead away from a root that nothing leads to, and no point reached from the
root is entered twice. Such a relation has no cycle through a reached point, so a
point is never reached from one of its descendants. A subtree that is cut off and
attached outside of itself leaves the reached points as they are.
-/

namespace Os2024.Library.RootedTree
open Relation

variable {α : Type*} {r r' : α → α → Prop} {root a b c d x : α}

/-- No edge between reached points enters the root, and none shares its end with another. -/
structure Rooted (r : α → α → Prop) (root : α) : Prop where
  source : ∀ {a}, ReflTransGen r root a → ¬r a root
  unique : ∀ {a b c}, ReflTransGen r root a → ReflTransGen r root b → r a c → r b c → a = b

namespace Rooted

theorem acyclic (h : Rooted r root) (hx : ReflTransGen r root x) : ¬TransGen r x x := by
  induction hx with
  | refl =>
    intro hcycle
    obtain ⟨y, hy, hlast⟩ := TransGen.tail'_iff.mp hcycle
    exact h.source hy hlast
  | @tail b x hb hbx ih =>
    intro hcycle
    obtain ⟨y, hy, hlast⟩ := TransGen.tail'_iff.mp hcycle
    have hreach : ReflTransGen r root y := (hb.tail hbx).trans hy
    obtain rfl := h.unique hreach hb hlast hbx
    exact ih (TransGen.head' hbx hy)

theorem ne_of_edge (h : Rooted r root) (ha : ReflTransGen r root a) (hab : r a b) : a ≠ b := by
  rintro rfl
  exact h.acyclic ha (.single hab)

theorem not_reach_parent (h : Rooted r root) (ha : ReflTransGen r root a) (hac : r a c) :
    ¬ReflTransGen r c a :=
  fun hback => h.acyclic ha (TransGen.head' hac hback)

theorem not_reach_grandparent (h : Rooted r root) (hd : ReflTransGen r root d) (hda : r d a)
    (hac : r a c) : ¬ReflTransGen r c d :=
  fun hback => h.not_reach_parent (hd.tail hda) hac (hback.tail hda)

theorem not_reach_sibling (h : Rooted r root) (ha : ReflTransGen r root a) (hac : r a c)
    (had : r a d) (hne : c ≠ d) : ¬ReflTransGen r c d := by
  intro hreach
  rcases ReflTransGen.cases_tail hreach with heq | ⟨y, hy, hyd⟩
  · exact hne heq.symm
  · obtain rfl := h.unique ((ha.tail hac).trans hy) ha hyd had
    exact h.not_reach_parent ha hac hy

end Rooted

/-- Points that are not below `c` are reached without the edges into `c`. -/
theorem reach_avoiding (keep : ∀ a b, ReflTransGen r root a → r a b → b ≠ c → r' a b)
    (hx : ReflTransGen r root x) (hnot : ¬ReflTransGen r c x) : ReflTransGen r' root x := by
  induction hx with
  | refl => exact .refl
  | @tail b x hb hbx ih =>
    have hxc : x ≠ c := by
      rintro rfl
      exact hnot .refl
    exact (ih fun hcb => hnot (hcb.tail hbx)).tail (keep b x hb hbx hxc)

/-- The subtree of `c` hangs below `d`, which is not in it, and all other edges are kept. -/
theorem reach_moved (hc : ReflTransGen r root c) (hd : ReflTransGen r root d)
    (hnot : ¬ReflTransGen r c d) (keep : ∀ a b, ReflTransGen r root a → r a b → b ≠ c → r' a b)
    (link : r' d c) (only : ∀ a b, ReflTransGen r root a → r' a b → r a b ∨ b = c) :
    ReflTransGen r root x ↔ ReflTransGen r' root x := by
  constructor
  · intro hx
    induction hx with
    | refl => exact .refl
    | @tail b x hb hbx ih =>
      by_cases hxc : x = c
      · subst x
        exact (reach_avoiding keep hd hnot).tail link
      · exact ih.tail (keep b x hb hbx hxc)
  · intro hx
    induction hx with
    | refl => exact .refl
    | @tail b x hb hbx ih =>
      rcases only b x ih hbx with hedge | rfl
      · exact ih.tail hedge
      · exact hc

end Os2024.Library.RootedTree
