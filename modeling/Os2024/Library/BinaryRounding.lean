import Mathlib.Tactic
import Mathlib.Data.Int.Log
import Mathlib.Data.Rat.Floor

/-! # Rounding to a binary floating-point format

A nonnegative rational is rounded to `p` significant bits, ties to even, with an
unbounded exponent. A dyadic value with at most `p` significant bits is kept, so
arithmetic that stays inside the format is exact. A quotient of natural numbers
is rounded up by adding one to its floor unless it is whole.
-/

namespace Os2024.Library.BinaryRounding

def roundHalfEven (q : ℚ) : ℤ :=
  if q - ⌊q⌋ < 1 / 2 then ⌊q⌋
  else if 1 / 2 < q - ⌊q⌋ then ⌊q⌋ + 1
  else if ⌊q⌋ % 2 = 0 then ⌊q⌋ else ⌊q⌋ + 1

/-- The weight of the last of the `p` significant bits of `q`, as a power of two. -/
def lastBit (p : ℕ) (q : ℚ) : ℤ := Int.log 2 q - (p - 1)

def roundBinary (p : ℕ) (q : ℚ) : ℚ :=
  if q = 0 then 0 else roundHalfEven (q / 2 ^ lastBit p q) * 2 ^ lastBit p q

theorem roundHalfEven_intCast (z : ℤ) : roundHalfEven z = z := by
  simp [roundHalfEven]

/-- A value of at most `p` significant bits is its own rounding. -/
theorem roundBinary_exact {p m : ℕ} (hm : m < 2 ^ p) (e : ℤ) :
    roundBinary p (m * 2 ^ e) = m * 2 ^ e := by
  by_cases h0 : m = 0
  · simp [roundBinary, h0]
  have hpos : (0 : ℚ) < m * 2 ^ e := by positivity
  have hlt : (m : ℚ) * 2 ^ e < ((2 : ℕ) : ℚ) ^ (p + e) := by
    rw [Nat.cast_ofNat, zpow_add₀ two_ne_zero, zpow_natCast]
    exact mul_lt_mul_of_pos_right (by exact_mod_cast hm) (by positivity)
  have hlog : Int.log 2 ((m : ℚ) * 2 ^ e) < p + e :=
    (Int.lt_zpow_iff_log_lt one_lt_two hpos).mp hlt
  obtain ⟨k, hk⟩ : ∃ k : ℕ, e = lastBit p (m * 2 ^ e) + k :=
    ⟨(e - lastBit p (m * 2 ^ e)).toNat, by rw [lastBit] at *; omega⟩
  have hscale : (m : ℚ) * 2 ^ e / 2 ^ lastBit p (m * 2 ^ e) = ((m * 2 ^ k : ℕ) : ℤ) := by
    rw [div_eq_iff (by positivity), Int.cast_natCast, Nat.cast_mul, Nat.cast_pow, Nat.cast_ofNat,
      mul_assoc, ← zpow_natCast, ← zpow_add₀ two_ne_zero, add_comm, ← hk]
  rw [roundBinary, if_neg hpos.ne', hscale, roundHalfEven_intCast, ← hscale]
  exact div_mul_cancel₀ _ (by positivity)

theorem roundUp_div (a : ℕ) {m : ℕ} (hm : 0 < m) :
    (if ((⌊(a : ℚ) / m⌋ : ℤ) : ℚ) = a / m then ⌊(a : ℚ) / m⌋ else ⌊(a : ℚ) / m⌋ + 1) =
      ((a + m - 1) / m : ℕ) := by
  have hfloor : ⌊(a : ℚ) / m⌋ = ((a / m : ℕ) : ℤ) := Rat.floor_intCast_div_natCast a m
  have hm' : (m : ℚ) ≠ 0 := Nat.cast_ne_zero.mpr hm.ne'
  have hwhole : (((a / m : ℕ) : ℤ) : ℚ) = (a : ℚ) / m ↔ a / m * m = a := by
    rw [eq_div_iff hm', Int.cast_natCast]
    exact_mod_cast Iff.rfl
  have hdecomp := Nat.div_add_mod' a m
  have hlt := Nat.mod_lt a hm
  rw [hfloor]
  by_cases hmul : a / m * m = a
  · have hup : (a + m - 1) / m = a / m := by
      rw [Nat.div_eq_iff hm]
      constructor <;> omega
    rw [if_pos (hwhole.mpr hmul), hup]
  · have hup : (a + m - 1) / m = a / m + 1 := by
      have hsum : (a / m + 1) * m = a / m * m + m := Nat.succ_mul _ _
      rw [Nat.div_eq_iff hm, hsum]
      constructor <;> omega
    rw [if_neg fun h => hmul (hwhole.mp h), hup]
    rfl

end Os2024.Library.BinaryRounding
