import Mathlib.Tactic
import Mathlib.Logic.Function.Basic

/-! # An ideal block store

Blocks of an arbitrary type are stored at natural addresses. A transfer moves a
run of consecutive blocks. The frame rules say that a write is seen by a read of
the same run and by no read of a run that does not meet it.
-/

namespace Os2024.Library.BlockStore

variable {B : Type*}

abbrev Store (B : Type*) := ℕ → B

def readRange (d : Store B) (start count : ℕ) : Fin count → B := fun i => d (start + i)

def writeRange (d : Store B) (start : ℕ) {count : ℕ} (data : Fin count → B) : Store B :=
  fun b => if h : start ≤ b ∧ b - start < count then data ⟨b - start, h.2⟩ else d b

theorem readRange_writeRange_same (d : Store B) (start : ℕ) {count : ℕ} (data : Fin count → B) :
    readRange (writeRange d start data) start count = data := by
  funext i
  simp [readRange, writeRange]

theorem writeRange_outside (d : Store B) (start : ℕ) {count : ℕ} (data : Fin count → B) (b : ℕ)
    (hb : b < start ∨ start + count ≤ b) : writeRange d start data b = d b := by
  have h : ¬(start ≤ b ∧ b - start < count) := by omega
  rw [writeRange, dif_neg h]

theorem readRange_writeRange_disjoint (d : Store B) (start start' : ℕ) {count count' : ℕ}
    (data : Fin count → B) (h : start' + count' ≤ start ∨ start + count ≤ start') :
    readRange (writeRange d start data) start' count' = readRange d start' count' := by
  funext i
  have hi := i.isLt
  exact writeRange_outside d start data _ (by omega)

end Os2024.Library.BlockStore
