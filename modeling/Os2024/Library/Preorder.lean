import Os2024.Library.RootedTree

/-! # The preorder of an ordered tree

The places of a node are looked at in order. A place is free or occupied, and an
occupied place may lead to another node. The preorder visits the occupied places,
each before all that is below it.
-/

namespace Os2024.Library.Preorder
open Relation

variable {N ι : Type*}

section Visits
variable (occupied : N → ι → Prop) (leads : N → ι → N → Prop) (places : List ι)

/-- The visits to the places `l` of node `n` and to what is below them. -/
inductive Visits : N → List ι → List (N × ι) → Prop
  | nil {n : N} : Visits n [] []
  | free {n : N} {i : ι} {l : List ι} {rest : List (N × ι)} (h : ¬occupied n i)
      (hrest : Visits n l rest) : Visits n (i :: l) rest
  | leaf {n : N} {i : ι} {l : List ι} {rest : List (N × ι)} (h : occupied n i)
      (hleaf : ∀ c, ¬leads n i c) (hrest : Visits n l rest) : Visits n (i :: l) ((n, i) :: rest)
  | node {n c : N} {i : ι} {l : List ι} {below rest : List (N × ι)} (h : leads n i c)
      (hbelow : Visits c places below) (hrest : Visits n l rest) :
      Visits n (i :: l) ((n, i) :: (below ++ rest))

/-- A place of the first node leads to the second. -/
def Below (a b : N) : Prop := ∃ i ∈ places, leads a i b

end Visits

variable {occupied : N → ι → Prop} {leads : N → ι → N → Prop} {places : List ι}

/-- A node with no endless descent below it has a preorder. -/
theorem exists_visits {n : N} (h : Acc (fun b a => Below leads places a b) n) :
    ∃ visited, Visits occupied leads places n places visited := by
  induction h with
  | intro n _ ih =>
    have hsome : ∀ l, (∀ i ∈ l, i ∈ places) → ∃ visited, Visits occupied leads places n l visited := by
      intro l hl
      induction l with
      | nil => exact ⟨[], .nil⟩
      | cons i l ihl =>
        obtain ⟨rest, hrest⟩ := ihl fun j hj => hl j (List.mem_cons_of_mem i hj)
        by_cases hnode : ∃ c, leads n i c
        · obtain ⟨c, hc⟩ := hnode
          obtain ⟨below, hbelow⟩ := ih c ⟨i, hl i List.mem_cons_self, hc⟩
          exact ⟨_, .node hc hbelow hrest⟩
        · by_cases hi : occupied n i
          · exact ⟨_, .leaf hi (not_exists.mp hnode) hrest⟩
          · exact ⟨_, .free hi hrest⟩
    exact hsome places fun _ => id

/-- Place `j` of `m` is one of the places `l` of `n`, or below one of them. -/
def Under (occupied : N → ι → Prop) (leads : N → ι → N → Prop) (places : List ι) (n : N)
    (l : List ι) (m : N) (j : ι) : Prop :=
  occupied m j ∧ (m = n ∧ j ∈ l ∨
    j ∈ places ∧ ∃ i ∈ l, ∃ c, leads n i c ∧ ReflTransGen (Below leads places) c m)

theorem under_places {n m : N} {j : ι} : Under occupied leads places n places m j ↔
    occupied m j ∧ j ∈ places ∧ ReflTransGen (Below leads places) n m := by
  rw [Under, ReflTransGen.cases_head_iff]
  constructor
  · rintro ⟨hj, ⟨rfl, hplace⟩ | ⟨hplace, i, hi, c, hc, hreach⟩⟩
    · exact ⟨hj, hplace, .inl rfl⟩
    · exact ⟨hj, hplace, .inr ⟨c, ⟨i, hi, hc⟩, hreach⟩⟩
  · rintro ⟨hj, hplace, rfl | ⟨c, ⟨i, hi, hc⟩, hreach⟩⟩
    · exact ⟨hj, .inl ⟨rfl, hplace⟩⟩
    · exact ⟨hj, .inr ⟨hplace, i, hi, c, hc, hreach⟩⟩

theorem under_cons {n m : N} {i j : ι} {l : List ι} : Under occupied leads places n (i :: l) m j ↔
    (m = n ∧ j = i) ∧ occupied n i ∨ (∃ c, leads n i c ∧ Under occupied leads places c places m j) ∨
      Under occupied leads places n l m j := by
  simp only [under_places]
  constructor
  · rintro ⟨hj, ⟨rfl, hl⟩ | ⟨hplace, k, hk, c, hc, hreach⟩⟩
    · rcases List.mem_cons.mp hl with rfl | hl
      · exact .inl ⟨⟨rfl, rfl⟩, hj⟩
      · exact .inr (.inr ⟨hj, .inl ⟨rfl, hl⟩⟩)
    · rcases List.mem_cons.mp hk with rfl | hk
      · exact .inr (.inl ⟨c, hc, hj, hplace, hreach⟩)
      · exact .inr (.inr ⟨hj, .inr ⟨hplace, k, hk, c, hc, hreach⟩⟩)
  · rintro (⟨⟨rfl, rfl⟩, hj⟩ | ⟨c, hc, hj, hplace, hreach⟩ | ⟨hj, hunder⟩)
    · exact ⟨hj, .inl ⟨rfl, List.mem_cons_self⟩⟩
    · exact ⟨hj, .inr ⟨hplace, i, List.mem_cons_self, c, hc, hreach⟩⟩
    · rcases hunder with ⟨rfl, hl⟩ | ⟨hplace, k, hk, c, hc, hreach⟩
      · exact ⟨hj, .inl ⟨rfl, List.mem_cons_of_mem i hl⟩⟩
      · exact ⟨hj, .inr ⟨hplace, k, List.mem_cons_of_mem i hk, c, hc, hreach⟩⟩

section Tree
variable (hoccupied : ∀ n i c, leads n i c → occupied n i)
  (hunique : ∀ n i c d, leads n i c → leads n i d → c = d)
include hoccupied hunique

theorem Visits.mem_iff {n m : N} {j : ι} {l : List ι} {visited : List (N × ι)}
    (h : Visits occupied leads places n l visited) :
    (m, j) ∈ visited ↔ Under occupied leads places n l m j := by
  induction h with
  | nil => simp [Under]
  | @free n i l rest hfree _ ih =>
    have hnone : ∀ c, ¬leads n i c := fun c hc => hfree (hoccupied n i c hc)
    simp only [under_cons, ih, hfree, hnone, and_false, false_and, exists_false, false_or]
  | @leaf n i l rest hlive hleaf _ ih =>
    simp only [under_cons, List.mem_cons, Prod.mk.injEq, ih, hlive, hleaf, and_true, false_and,
      exists_false, false_or]
  | @node n c i l below rest hc _ _ ihbelow ih =>
    have hchild : (∃ d, leads n i d ∧ Under occupied leads places d places m j) ↔
        Under occupied leads places c places m j := by
      constructor
      · rintro ⟨d, hd, hunder⟩
        exact hunique n i c d hc hd ▸ hunder
      · exact fun hunder => ⟨c, hc, hunder⟩
    simp only [under_cons, List.mem_cons, List.mem_append, Prod.mk.injEq, ih, ihbelow, hchild,
      hoccupied n i c hc, and_true]

/-- The preorder consists of the occupied places of all nodes reached. -/
theorem Visits.mem_places_iff {n m : N} {j : ι} {visited : List (N × ι)}
    (h : Visits occupied leads places n places visited) : (m, j) ∈ visited ↔
      occupied m j ∧ j ∈ places ∧ ReflTransGen (Below leads places) n m :=
  (h.mem_iff hoccupied hunique).trans under_places

end Tree

/-- In a finite tree no descent from a reached point is endless. -/
theorem acc_of_rooted [Finite N] {r : N → N → Prop} {root n : N} (h : RootedTree.Rooted r root)
    (hn : ReflTransGen r root n) : Acc (fun b a => r a b) n := by
  let below (b a : N) : Prop := ReflTransGen r root a ∧ TransGen r a b
  have htrans : IsTrans N below := ⟨fun _ _ _ hab hbc => ⟨hbc.1, hbc.2.trans hab.2⟩⟩
  have hirrefl : Std.Irrefl below := ⟨fun _ hcycle => h.acyclic hcycle.1 hcycle.2⟩
  have hwf : WellFounded below := Finite.wellFounded_of_trans_of_irrefl below
  induction n using hwf.induction with
  | _ n ih => exact .intro n fun b hb => ih b ⟨hn, .single hb⟩ (hn.tail hb)

end Os2024.Library.Preorder
