import Os2024.Library.PackedLayout
import Os2024.Library.BinaryRounding

/-! # What the kernel code runs on

Flat 32-bit memory, the ways in which a call can fail to return, and the
single-precision arithmetic behind the two rounding helpers of the kernel.
Out-of-range array accesses, endless loops and unhandled page faults end a run:
no meaning is given to the state behind them.
-/

namespace Os2024
open Library.PackedLayout Library.BinaryRounding

/-- Why a call does not return: an array is indexed outside its bounds, a loop never ends,
a null pointer is followed, a store hits an unmapped page (exception 14 is not handled, so the
instruction faults for ever), or a store overwrites the kernel itself. -/
inductive Fault where
  | outOfBounds
  | diverges
  | nullDereference
  | pageFault
  | kernelOverwrite
  deriving DecidableEq, Repr

theorem map_snd_eq_ok {α β : Type} {x : Except Fault (α × β)} {b : β}
    (h : x.map Prod.snd = .ok b) : ∃ a, x = .ok (a, b) := by
  cases x with
  | error f => cases h
  | ok y =>
    obtain ⟨a, b'⟩ := y
    obtain rfl := Except.ok.inj h
    exact ⟨a, rfl⟩

abbrev Memory := UInt32 → UInt8

def Memory.load (mem : Memory) (n : ℕ) (addr : UInt32) : Bytes n :=
  fun i => mem (addr + UInt32.ofNat i)

def Memory.store {n : ℕ} (mem : Memory) (addr : UInt32) (data : Bytes n) : Memory :=
  fun a => if h : (a - addr).toNat < n then data ⟨(a - addr).toNat, h⟩ else mem a

def toFloat (n : UInt32) : ℚ := roundBinary 24 n.toNat

/-- The `float` quotient `a / (float) b`. -/
def floatDiv (a b : UInt32) : ℚ := roundBinary 24 (toFloat a / toFloat b)

/-- `ceil32` of math.c. -/
def ceil32 (n : ℚ) : UInt32 :=
  if (⌊n⌋ : ℚ) = n then UInt32.ofInt ⌊n⌋ else UInt32.ofInt (⌊n⌋ + 1)

/-- `ceil_div` of math.c. -/
def ceilDiv (a b : UInt32) : UInt32 := ceil32 (floatDiv a b)

theorem toFloat_exact {n : UInt32} (hn : n.toNat < 2 ^ 24) : toFloat n = n.toNat := by
  simpa [toFloat] using roundBinary_exact hn 0

theorem floatDiv_pow_two {a b : UInt32} {k : ℕ} (ha : a.toNat < 2 ^ 24) (hb : b.toNat = 2 ^ k)
    (hk : k < 24) : floatDiv a b = a.toNat / 2 ^ k := by
  have hb' : b.toNat < 2 ^ 24 := by
    rw [hb]
    exact Nat.pow_lt_pow_right one_lt_two hk
  rw [floatDiv, toFloat_exact ha, toFloat_exact hb', hb, Nat.cast_pow, Nat.cast_ofNat]
  have h := roundBinary_exact ha (-(k : ℤ))
  rwa [zpow_neg, zpow_natCast, ← div_eq_mul_inv] at h

/-- Multiples of a power of two that is within the format are divided exactly. -/
theorem floatDiv_multiple {a b : UInt32} {k m : ℕ} (ha : a.toNat = m * 2 ^ k) (hm : m < 2 ^ 24)
    (hb : b.toNat = 2 ^ k) (hk : k < 24) : floatDiv a b = m := by
  have hb' : b.toNat < 2 ^ 24 := by
    rw [hb]
    exact Nat.pow_lt_pow_right one_lt_two hk
  have hfloat : toFloat a = m * 2 ^ k := by
    have hround := roundBinary_exact hm (k : ℤ)
    rw [zpow_natCast] at hround
    simpa [toFloat, ha] using hround
  have hquotient : (m : ℚ) * 2 ^ k / 2 ^ k = m := by
    field_simp
  have hround := roundBinary_exact hm 0
  rw [zpow_zero, mul_one] at hround
  rw [floatDiv, hfloat, toFloat_exact hb', hb, Nat.cast_pow, Nat.cast_ofNat, hquotient, hround]

theorem ceil32_toNat {q : ℚ} {a m : ℕ} (hm : 0 < m) (hq : q = a / m) (ha : a < 2 ^ 32) :
    (ceil32 q).toNat = (a + m - 1) / m := by
  have hle : (a + m - 1) / m ≤ a := by
    rw [Nat.div_le_iff_le_mul hm]
    have h := Nat.le_mul_of_pos_right a hm
    omega
  rw [ceil32, ← apply_ite UInt32.ofInt, hq, roundUp_div a hm, UInt32.ofInt, UInt32.toNat_ofNat']
  generalize (a + m - 1) / m = n at hle ⊢
  omega

/-- Division by a power of two is rounded up once the dividend fits the significand. -/
theorem ceilDiv_toNat {a b : UInt32} {k : ℕ} (ha : a.toNat < 2 ^ 24) (hb : b.toNat = 2 ^ k)
    (hk : k < 24) : (ceilDiv a b).toNat = (a.toNat + 2 ^ k - 1) / 2 ^ k := by
  refine ceil32_toNat (by positivity) ?_ a.toNat_lt
  rw [floatDiv_pow_two ha hb hk, Nat.cast_pow, Nat.cast_ofNat]

end Os2024
