import Mathlib.Tactic
import Mathlib.Logic.Function.Basic

/-! # Private memories in one store

Keys are translated to places of one store; a key may have no place. When no two
keys share a place, each of them is a cell of its own: a store at the place of a
key changes what is kept for that key and for no other.
-/

namespace Os2024.Library.PrivateMemories

variable {κ ν β : Type*}

/-- No two keys share a place. -/
def Separate (place : κ → Option ν) : Prop :=
  ∀ {k k' v}, place k = some v → place k' = some v → k = k'

/-- The store keeps `mem` at the places of the keys. -/
def Keeps (place : κ → Option ν) (store : ν → β) (mem : κ → β) : Prop :=
  ∀ k v, place k = some v → store v = mem k

section Updates
variable {place : κ → Option ν} {store : ν → β} {mem : κ → β} {k : κ} {v : ν}

theorem Keeps.update_unplaced [DecidableEq κ] (h : Keeps place store mem) (hk : place k = none)
    (b : β) : Keeps place store (Function.update mem k b) := by
  intro k' v' hk'
  have hkk : k' ≠ k := by
    rintro rfl
    rw [hk] at hk'
    cases hk'
  rw [Function.update_of_ne hkk, h k' v' hk']

variable [DecidableEq ν]

theorem Keeps.update [DecidableEq κ] (h : Keeps place store mem) (hplace : Separate place) (hk : place k = some v)
    (b : β) : Keeps place (Function.update store v b) (Function.update mem k b) := by
  intro k' v' hk'
  by_cases hkk : k' = k
  · subst k'
    obtain rfl := Option.some.inj (hk.symm.trans hk')
    rw [Function.update_self, Function.update_self]
  · have hvv : v' ≠ v := by
      rintro rfl
      exact hkk (hplace hk' hk)
    rw [Function.update_of_ne hvv, Function.update_of_ne hkk, h k' v' hk']

/-- A store where no key looks changes nothing. -/
theorem Keeps.update_unseen (h : Keeps place store mem) (hv : ∀ k, place k ≠ some v) (b : β) :
    Keeps place (Function.update store v b) mem := by
  intro k' v' hk'
  have hvv : v' ≠ v := by
    rintro rfl
    exact hv k' hk'
  rw [Function.update_of_ne hvv, h k' v' hk']

end Updates

section Loops
variable {ι : Type*} [DecidableEq κ] (f : ι → κ) (b : ι → β) {l : List ι}

theorem foldl_update_of_ne {k : κ} (hk : ∀ i ∈ l, k ≠ f i) (mem : κ → β) :
    l.foldl (fun mem i => Function.update mem (f i) (b i)) mem k = mem k := by
  induction l generalizing mem with
  | nil => rfl
  | cons i l ih =>
    rw [List.foldl_cons, ih fun j hj => hk j (List.mem_cons_of_mem i hj),
      Function.update_of_ne (hk i List.mem_cons_self)]

theorem foldl_update_self (hf : Function.Injective f) (hl : l.Nodup) {i : ι} (hi : i ∈ l)
    (mem : κ → β) : l.foldl (fun mem i => Function.update mem (f i) (b i)) mem (f i) = b i := by
  induction l generalizing mem with
  | nil => cases hi
  | cons j l ih =>
    obtain ⟨hj, hl⟩ := List.nodup_cons.mp hl
    rw [List.foldl_cons]
    rcases List.mem_cons.mp hi with rfl | hi
    · have hlater : ∀ j ∈ l, f i ≠ f j := by
        rintro j hmem heq
        rw [hf heq] at hj
        exact hj hmem
      rw [foldl_update_of_ne f b hlater, Function.update_self]
    · exact ih hl hi _

end Loops

theorem exists_keeps [Nonempty β] (place : κ → Option ν) (store : ν → β) :
    ∃ mem, Keeps place store mem := by
  refine ⟨fun k => ((place k).map store).getD (Classical.arbitrary β), fun k v hk => ?_⟩
  dsimp only
  rw [hk]
  rfl

end Os2024.Library.PrivateMemories
