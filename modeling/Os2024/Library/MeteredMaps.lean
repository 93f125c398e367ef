import Mathlib.Tactic
import Mathlib.Logic.Function.Basic

/-! # Maps with a meter

A map from keys to values whose values take room out of a common stock. Putting a
value under a key first gives back the room of the old one. Puts under different
keys commute, the meter included.
-/

namespace Os2024.Library.MeteredMaps
open Classical

/-- What the map holds under each key, and the room that is left. -/
@[ext] structure MeteredMap (κ ν : Type*) where
  entries : κ → Option ν
  free : ℤ

variable {κ ν : Type*} {size : ν → ℤ}

def room (size : ν → ℤ) : Option ν → ℤ
  | none => 0
  | some v => size v

@[simp] theorem room_none : room size none = 0 := rfl
@[simp] theorem room_some (v : ν) : room size (some v) = size v := rfl

/-- The map with a new value, or none, under one key. -/
noncomputable def MeteredMap.put (size : ν → ℤ) (m : MeteredMap κ ν) (key : κ) (new : Option ν) :
    MeteredMap κ ν where
  entries := Function.update m.entries key new
  free := m.free + room size (m.entries key) - room size new

@[simp] theorem MeteredMap.put_self (m : MeteredMap κ ν) (key : κ) (new : Option ν) :
    (m.put size key new).entries key = new := by
  simp [put]

theorem MeteredMap.put_of_ne (m : MeteredMap κ ν) {key key' : κ} (h : key' ≠ key)
    (new : Option ν) : (m.put size key new).entries key' = m.entries key' := by
  simp [put, h]

theorem MeteredMap.put_comm (m : MeteredMap κ ν) {key key' : κ} (h : key ≠ key')
    (new new' : Option ν) :
    (m.put size key new).put size key' new' = (m.put size key' new').put size key new := by
  ext1
  · exact Function.update_comm h new new' m.entries
  · change _ + room size ((m.put size key new).entries key') - _ =
      _ + room size ((m.put size key' new').entries key) - _
    rw [m.put_of_ne h.symm, m.put_of_ne h, put, put]
    dsimp only
    ring

/-- A value that the relation gives to the key. -/
noncomputable def ofRelation (holds : κ → ν → Prop) (key : κ) : Option ν :=
  if h : ∃ v, holds key v then some h.choose else none

/-- When the value is unique, the map has the key exactly as the relation does. -/
theorem ofRelation_eq_some (holds : κ → ν → Prop)
    (hunique : ∀ {key v v'}, holds key v → holds key v' → v = v') {key : κ} {v : ν} :
    ofRelation holds key = some v ↔ holds key v := by
  constructor
  · intro h
    rw [ofRelation] at h
    split_ifs at h with hex
    exact Option.some.inj h ▸ hex.choose_spec
  · intro h
    have hex : ∃ v, holds key v := ⟨v, h⟩
    rw [ofRelation, dif_pos hex, hunique hex.choose_spec h]

end Os2024.Library.MeteredMaps
