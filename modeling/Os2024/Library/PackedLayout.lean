import Mathlib.Tactic
import Mathlib.Logic.Equiv.Fin.Basic
import Mathlib.Data.UInt

/-! # Packed little-endian layouts of fixed-size records

A layout is a bijection between the values of a type and the byte strings of one
fixed length. Bytes, halfwords and words are the leaves; records are juxtaposed
with `pair` and tables are laid out with `array`, so the round trips of a packed
record are those of its leaves and never proved again.
-/

namespace Os2024.Library.PackedLayout

abbrev Bytes (n : ℕ) := Fin n → UInt8

/-- Every value has exactly one byte string of length `n`, and every such string is a value. -/
abbrev Layout (α : Type*) (n : ℕ) := α ≃ Bytes n

variable {α β : Type*} {m n : ℕ}

def byte : Layout UInt8 1 := (Equiv.funUnique (Fin 1) UInt8).symm

def bytes (n : ℕ) : Layout (Bytes n) n := Equiv.refl _

/-- Two records one behind the other, without padding. -/
def pair (a : Layout α m) (b : Layout β n) : Layout (α × β) (m + n) :=
  (a.prodCongr b).trans (Fin.appendEquiv m n)

/-- `k` records of one layout, the record of index `i` at offset `n * i`. -/
def array (k : ℕ) (a : Layout α n) : Layout (Fin k → α) (k * n) :=
  ((Equiv.piCongrRight fun _ => a).trans (Equiv.curry (Fin k) (Fin n) UInt8).symm).trans
    (Equiv.arrowCongr finProdFinEquiv (Equiv.refl UInt8))

theorem array_apply {k : ℕ} (a : Layout α n) (xs : Fin k → α) (i : Fin k) (j : Fin n) :
    array k a xs (finProdFinEquiv (i, j)) = a (xs i) j := by
  simp [array]

theorem array_symm_apply {k : ℕ} (a : Layout α n) (x : Bytes (k * n)) (i : Fin k) :
    (array k a).symm x i = a.symm fun j => x (finProdFinEquiv (i, j)) := rfl

/-- Two strings joined between two records read as records of the one and then of the other. -/
theorem array_symm_splice {k : ℕ} (a : Layout α n) (q : ℕ) (x y : Bytes (k * n)) (i : Fin k) :
    (array k a).symm (fun b => if b.val < n * q then y b else x b) i =
      if i.val < q then (array k a).symm y i else (array k a).symm x i := by
  rw [array_symm_apply, array_symm_apply, array_symm_apply, ← apply_ite a.symm]
  congr 1
  funext j
  have hj := j.isLt
  have hside : (finProdFinEquiv (i, j)).val < n * q ↔ i.val < q := by
    have hval : (finProdFinEquiv (i, j)).val = j.val + n * i.val := rfl
    rw [hval]
    constructor
    · intro h
      by_contra hge
      have := Nat.mul_le_mul_left n (not_lt.mp hge)
      omega
    · intro h
      have := Nat.mul_le_mul_left n (Nat.succ_le_of_lt h)
      rw [Nat.mul_succ] at this
      omega
  by_cases hi : i.val < q
  · rw [if_pos (hside.mpr hi), if_pos hi]
  · rw [if_neg (fun h => hi (hside.mp h)), if_neg hi]

def halfword : Layout UInt16 2 where
  toFun x := ![x.toUInt8, UInt8.ofNat (x.toNat / 256)]
  invFun b := UInt16.ofNat ((b 0).toNat + 256 * (b 1).toNat)
  left_inv x := by
    apply UInt16.toNat_inj.mp
    have hx := x.toNat_lt
    simp
    omega
  right_inv b := by
    have h0 := (b 0).toNat_lt
    have h1 := (b 1).toNat_lt
    funext i
    apply UInt8.toNat_inj.mp
    fin_cases i
    · simp
    · simp
      omega

def halves : UInt32 ≃ UInt16 × UInt16 where
  toFun x := (x.toUInt16, UInt16.ofNat (x.toNat / 65536))
  invFun p := UInt32.ofNat (p.1.toNat + 65536 * p.2.toNat)
  left_inv x := by
    apply UInt32.toNat_inj.mp
    have hx := x.toNat_lt
    simp
    omega
  right_inv p := by
    have h0 := p.1.toNat_lt
    have h1 := p.2.toNat_lt
    apply Prod.ext
    · apply UInt16.toNat_inj.mp
      simp
    · apply UInt16.toNat_inj.mp
      simp
      omega

/-- A 32-bit number, low halfword first. -/
def word : Layout UInt32 4 := halves.trans (pair halfword halfword)

end Os2024.Library.PackedLayout
