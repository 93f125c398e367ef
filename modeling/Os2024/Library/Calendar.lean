import Mathlib.Tactic
import Mathlib.Logic.Function.Iterate

/-! # A date-time that advances by seconds

A two-digit year, in which every fourth year is a leap year. The time of day
counts the seconds since midnight and advances by one with each tick, modulo the
length of a day.
-/

namespace Os2024.Library.Calendar

def daysInMonth (year month : ℕ) : ℕ :=
  if month = 2 then if year % 4 = 0 then 29 else 28
  else if month = 4 ∨ month = 6 ∨ month = 9 ∨ month = 11 then 30
  else 31

@[ext] structure DateTime where
  second : ℕ
  minute : ℕ
  hour : ℕ
  day : ℕ
  month : ℕ
  year : ℕ
  second_lt : second < 60
  minute_lt : minute < 60
  hour_lt : hour < 24
  day_pos : 0 < day
  day_le : day ≤ daysInMonth year month
  month_pos : 0 < month
  month_le : month ≤ 12
  year_lt : year < 100

theorem daysInMonth_pos (year month : ℕ) : 0 < daysInMonth year month := by
  rw [daysInMonth]
  split_ifs <;> decide

theorem daysInMonth_le (year month : ℕ) : daysInMonth year month ≤ 31 := by
  rw [daysInMonth]
  split_ifs <;> decide

namespace DateTime

def nextDay (d : DateTime) : DateTime :=
  if h : d.day + 1 ≤ daysInMonth d.year d.month then
    { d with
      second := 0, minute := 0, hour := 0, day := d.day + 1
      second_lt := Nat.succ_pos 59
      minute_lt := Nat.succ_pos 59
      hour_lt := Nat.succ_pos 23
      day_pos := Nat.succ_pos d.day
      day_le := h }
  else if h : d.month + 1 ≤ 12 then
    { d with
      second := 0, minute := 0, hour := 0, day := 1, month := d.month + 1
      second_lt := Nat.succ_pos 59
      minute_lt := Nat.succ_pos 59
      hour_lt := Nat.succ_pos 23
      day_pos := one_pos
      day_le := daysInMonth_pos d.year (d.month + 1)
      month_pos := Nat.succ_pos d.month
      month_le := h }
  else
    { second := 0, minute := 0, hour := 0, day := 1, month := 1, year := (d.year + 1) % 100
      second_lt := Nat.succ_pos 59
      minute_lt := Nat.succ_pos 59
      hour_lt := Nat.succ_pos 23
      day_pos := one_pos
      day_le := daysInMonth_pos ((d.year + 1) % 100) 1
      month_pos := one_pos
      month_le := Nat.succ_le_succ (Nat.zero_le 11)
      year_lt := Nat.mod_lt _ (Nat.succ_pos 99) }

def tick (d : DateTime) : DateTime :=
  if h : d.second + 1 < 60 then { d with second := d.second + 1, second_lt := h }
  else if h : d.minute + 1 < 60 then
    { d with
      second := 0, minute := d.minute + 1
      second_lt := Nat.succ_pos 59
      minute_lt := h }
  else if h : d.hour + 1 < 24 then
    { d with
      second := 0, minute := 0, hour := d.hour + 1
      second_lt := Nat.succ_pos 59
      minute_lt := Nat.succ_pos 59
      hour_lt := h }
  else d.nextDay

def timeOfDay (d : DateTime) : ℕ := 3600 * d.hour + 60 * d.minute + d.second

theorem timeOfDay_lt (d : DateTime) : d.timeOfDay < 86400 := by
  have hsecond := d.second_lt
  have hminute := d.minute_lt
  have hhour := d.hour_lt
  rw [timeOfDay]
  omega

theorem timeOfDay_nextDay (d : DateTime) : d.nextDay.timeOfDay = 0 := by
  rw [nextDay]
  split_ifs <;> rfl

theorem timeOfDay_tick (d : DateTime) : d.tick.timeOfDay = (d.timeOfDay + 1) % 86400 := by
  have hsecond := d.second_lt
  have hminute := d.minute_lt
  have hhour := d.hour_lt
  rw [tick]
  split_ifs with h₁ h₂ h₃
  · simp only [timeOfDay]
    omega
  · simp only [timeOfDay]
    omega
  · simp only [timeOfDay]
    omega
  · rw [timeOfDay_nextDay, timeOfDay]
    omega

theorem timeOfDay_iterate (d : DateTime) (n : ℕ) :
    (tick^[n] d).timeOfDay = (d.timeOfDay + n) % 86400 := by
  induction n with
  | zero => exact (Nat.mod_eq_of_lt d.timeOfDay_lt).symm
  | succ n ih =>
    rw [Function.iterate_succ_apply', timeOfDay_tick, ih]
    omega

end DateTime

end Os2024.Library.Calendar
