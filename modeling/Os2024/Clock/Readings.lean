import Os2024.Clock.Rtc

/-! # The date-times that the driver returns

Every batch of reads sees one instant. The reading is made of the instant of the
last batch and of the year at the instant of the first one; with 12 hours, the
conversion exchanges midnight and noon.
-/

namespace Os2024.Clock
open Library.Calendar

def Rtc.start (registerB : UInt8) (d : DateTime) : Rtc := ⟨registerB, d, 0, false, []⟩

def lastRead (reg : UInt8) (journal : List (UInt8 × DateTime)) : Option DateTime :=
  (journal.find? (fun entry => entry.1 = reg)).map Prod.snd

/-- A date-time as plain binary numbers with a 24-hour hour. -/
def plain (d : DateTime) : ClockTime :=
  ⟨.ofNat d.second, .ofNat d.minute, .ofNat d.hour, .ofNat d.day, .ofNat d.month, .ofNat d.year⟩

theorem advance_advance (n m : ℕ) (c : Rtc) : (c.advance n).advance m = c.advance (n + m) := by
  simp only [Rtc.advance, ← Function.iterate_add_apply, add_comm m n, add_assoc]

theorem waitForUpdate_spec {script rest : List Access} {c c' : Rtc}
    (h : waitForUpdate script c = some (rest, c')) : ∃ n, c' = { c.advance n with ready := true } := by
  induction script generalizing c with
  | nil => simp [waitForUpdate] at h
  | cons a script ih =>
    rw [waitForUpdate, getUpdateInProgressFlag] at h
    cases hupdating : a.updating with
    | true =>
      simp only [hupdating, if_true] at h
      obtain ⟨n, rfl⟩ := ih h
      refine ⟨a.updates + n, ?_⟩
      rw [← advance_advance]
      rfl
    | false =>
      simp only [hupdating, Bool.false_eq_true, if_false, Option.some.injEq, Prod.mk.injEq] at h
      exact ⟨a.updates, h.2.symm⟩

/-- A read behind a clear flag sees the instant at which the flag was clear. -/
theorem getRtcRegister_date {reg v : UInt8} {script rest : List Access} {c c' : Rtc}
    (hready : c.ready = true) (hreg : reg ∈ dateRegisters)
    (h : getRtcRegister reg script c = some (v, rest, c')) :
    v = register c.registerB c.now reg ∧ c' = { c with journal := (reg, c.now) :: c.journal } := by
  cases script with
  | nil => simp [getRtcRegister] at h
  | cons a script =>
    simp only [getRtcRegister, hready, hreg, true_and] at h
    split_ifs at h with hupdates
    have hzero : c.advance a.updates = c := by
      rw [not_not.mp hupdates]
      rfl
    simp only [hzero, Option.some.injEq, Prod.mk.injEq] at h
    exact ⟨h.1.symm, h.2.2.symm⟩

theorem getRtcRegister_other {reg v : UInt8} {script rest : List Access} {c c' : Rtc}
    (hreg : reg ∉ dateRegisters) (h : getRtcRegister reg script c = some (v, rest, c')) :
    ∃ n, v = register c.registerB (c.advance n).now reg ∧
      c' = { c.advance n with journal := (reg, (c.advance n).now) :: c.journal } := by
  cases script with
  | nil => simp [getRtcRegister] at h
  | cons a script =>
    simp only [getRtcRegister, hreg, false_and, and_false, if_false, Option.some.injEq,
      Prod.mk.injEq] at h
    exact ⟨a.updates, h.1.symm, h.2.2.symm⟩

/-- The batch as the registers show it, with a year that was read before. -/
def shown (registerB : UInt8) (d : DateTime) (year : UInt8) : ClockTime :=
  ⟨encode registerB d.second, encode registerB d.minute, encodeHour registerB d.hour,
    encode registerB d.day, encode registerB d.month, year⟩

theorem readBatch_spec {t t' : ClockTime} {script rest : List Access} {c c' : Rtc}
    (h : readBatch t script c = some (t', rest, c')) : ∃ n, let d := (c.advance n).now
      t' = shown c.registerB d t.year ∧ c' = { c.advance n with
        ready := true
        journal := [(0x08, d), (0x07, d), (0x04, d), (0x02, d), (0x00, d)] ++ c.journal } := by
  simp only [readBatch, Option.bind_eq_bind, Option.bind_eq_some_iff, Prod.exists] at h
  obtain ⟨s₁, c₁, hwait, second, s₂, c₂, h₂, minute, s₃, c₃, h₃, hour, s₄, c₄, h₄, day, s₅, c₅, h₅,
    month, s₆, c₆, h₆, hresult⟩ := h
  obtain ⟨n, rfl⟩ := waitForUpdate_spec hwait
  obtain ⟨rfl, rfl⟩ := getRtcRegister_date rfl (by decide) h₂
  obtain ⟨rfl, rfl⟩ := getRtcRegister_date rfl (by decide) h₃
  obtain ⟨rfl, rfl⟩ := getRtcRegister_date rfl (by decide) h₄
  obtain ⟨rfl, rfl⟩ := getRtcRegister_date rfl (by decide) h₅
  obtain ⟨rfl, rfl⟩ := getRtcRegister_date rfl (by decide) h₆
  simp only [Option.some.injEq, Prod.mk.injEq] at hresult
  refine ⟨n, ?_, ?_⟩
  · rw [← hresult.1]
    rfl
  · rw [← hresult.2.2]
    rfl

/-- With 12 hours, midnight is shown as 12 AM and read as 12, noon as 12 PM and read as 24 % 24. -/
def hourRead (registerB : UInt8) (hour : ℕ) : ℕ :=
  if registerB &&& 0x02 = 0 ∧ hour % 12 = 0 then 12 - hour else hour

theorem fromBcd_toBcd {n : ℕ} (h : n < 100) : fromBcd (toBcd n) = .ofNat n := by
  have hall : ∀ n : Fin 100, fromBcd (toBcd n) = .ofNat n := by decide
  exact hall ⟨n, h⟩

def fromBcdHour (b : UInt8) : UInt8 := ((b &&& 0x0F) + (b &&& 0x70) / 16 * 10) ||| (b &&& 0x80)

def fromTwelve (b : UInt8) : UInt8 := if b &&& 0x80 ≠ 0 then ((b &&& 0x7F) + 12) % 24 else b

/-- The hour as the registers show it with 12 hours, in either number format. -/
def twelveShown (convertNumber : ℕ → UInt8) (hour : ℕ) : UInt8 :=
  convertNumber (if hour % 12 = 0 then 12 else hour % 12) ||| (if hour < 12 then 0 else 0x80)

theorem hours_shown {hour : ℕ} (h : hour < 24) :
    fromTwelve (fromBcdHour (twelveShown toBcd hour)) =
      .ofNat (if hour % 12 = 0 then 12 - hour else hour) ∧
    fromTwelve (twelveShown .ofNat hour) = .ofNat (if hour % 12 = 0 then 12 - hour else hour) ∧
    fromBcdHour (toBcd hour) = .ofNat hour := by
  have hall : ∀ hour : Fin 24,
      fromTwelve (fromBcdHour (twelveShown toBcd hour)) =
        .ofNat (if hour.val % 12 = 0 then 12 - hour else hour) ∧
      fromTwelve (twelveShown .ofNat hour) =
        .ofNat (if hour.val % 12 = 0 then 12 - hour else hour) ∧
      fromBcdHour (toBcd hour) = .ofNat hour := by decide
  exact hall ⟨hour, h⟩

theorem convert_bcd {registerB : UInt8} (h : registerB &&& 0x04 = 0) (t : ClockTime) :
    convert registerB t = ⟨fromBcd t.second, fromBcd t.minute,
      if registerB &&& 0x02 = 0 then fromTwelve (fromBcdHour t.hour) else fromBcdHour t.hour,
      fromBcd t.day, fromBcd t.month, fromBcd t.year⟩ := by
  simp only [convert, h, if_true, fromTwelve, fromBcdHour]
  split_ifs <;> simp_all

theorem convert_binary {registerB : UInt8} (h : registerB &&& 0x04 ≠ 0) (t : ClockTime) :
    convert registerB t = { t with
      hour := if registerB &&& 0x02 = 0 then fromTwelve t.hour else t.hour } := by
  simp only [convert, h, if_false, fromTwelve]
  split_ifs <;> simp_all

/-- In all four modes the registers are converted to plain numbers, but for the hours 0 and 12. -/
theorem convert_shown (registerB : UInt8) (d : DateTime) {year : ℕ} (hyear : year < 100) :
    convert registerB (shown registerB d (encode registerB year)) =
      ⟨.ofNat d.second, .ofNat d.minute, .ofNat (hourRead registerB d.hour), .ofNat d.day,
        .ofNat d.month, .ofNat year⟩ := by
  have hsecond := fromBcd_toBcd (d.second_lt.trans (by decide))
  have hminute := fromBcd_toBcd (d.minute_lt.trans (by decide))
  have hday := fromBcd_toBcd ((d.day_le.trans (daysInMonth_le _ _)).trans_lt (by decide))
  have hmonth := fromBcd_toBcd (d.month_le.trans_lt (by decide))
  obtain ⟨hbcd, hbinary, hplain⟩ := hours_shown d.hour_lt
  by_cases hformat : registerB &&& 0x04 = 0 <;> by_cases htwelve : registerB &&& 0x02 = 0
  · rw [convert_bcd hformat]
    simp_all [shown, encode, encodeHour, hourRead, twelveShown, fromBcd_toBcd hyear]
  · rw [convert_bcd hformat]
    simp_all [shown, encode, encodeHour, hourRead, fromBcd_toBcd hyear]
  · rw [convert_binary hformat]
    simp_all [shown, encode, encodeHour, hourRead, twelveShown]
  · rw [convert_binary hformat]
    simp_all [shown, encode, encodeHour, hourRead]

/-- What the loop leaves behind: the registers at the instant `d` of its last batch. -/
structure Settled (t t' : ClockTime) (c c' : Rtc) (n : ℕ) : Prop where
  shown : t' = shown c.registerB c'.now t.year
  registerB : c'.registerB = c.registerB
  now : c'.now = (c.advance n).now
  elapsed : c'.elapsed = c.elapsed + n
  hour : lastRead 0x04 c'.journal = some c'.now
  year : lastRead 0x09 c'.journal = lastRead 0x09 c.journal

theorem readBatch_settled {t t' : ClockTime} {script rest : List Access} {c c' : Rtc}
    (h : readBatch t script c = some (t', rest, c')) : ∃ n, Settled t t' c c' n := by
  obtain ⟨n, hshown, rfl⟩ := readBatch_spec h
  exact ⟨n, hshown, rfl, rfl, rfl, by simp [lastRead], by simp [lastRead]⟩

theorem Settled.trans {t t' t'' : ClockTime} {c c' c'' : Rtc} {n m : ℕ} (h : Settled t t' c c' n)
    (h' : Settled t' t'' c' c'' m) : Settled t t'' c c'' (n + m) where
  shown := by
    have hyear : t'.year = t.year := by rw [h.shown, Clock.shown]
    rw [h'.shown, h.registerB, hyear]
  registerB := h'.registerB.trans h.registerB
  now := by
    have hadvance : (c'.advance m).now = ((c.advance n).advance m).now := by
      simp only [Rtc.advance, h.now]
    rw [h'.now, hadvance, advance_advance]
  elapsed := by rw [h'.elapsed, h.elapsed, add_assoc]
  hour := h'.hour
  year := h'.year.trans h.year

/-- However many passes it takes, the loop returns what its last batch has seen. -/
theorem readUntilStable_settled {passes : ℕ} {t t' : ClockTime} {script rest : List Access}
    {c c' : Rtc} (h : readUntilStable passes t script c = some (t', rest, c')) :
    ∃ n, Settled t t' c c' n := by
  induction passes generalizing t script c with
  | zero => simp [readUntilStable] at h
  | succ passes ih =>
    rw [readUntilStable] at h
    cases hbatch : readBatch t script c with
    | none => simp [hbatch] at h
    | some result =>
      obtain ⟨t₁, script₁, c₁⟩ := result
      obtain ⟨n, hfirst⟩ := readBatch_settled hbatch
      simp only [hbatch] at h
      split_ifs at h with hagain
      · obtain ⟨m, hrest⟩ := ih h
        exact ⟨n + m, hfirst.trans hrest⟩
      · simp only [Option.some.injEq, Prod.mk.injEq] at h
        obtain ⟨rfl, -, rfl⟩ := h
        exact ⟨n, hfirst⟩

/-- The reading is converted from the registers of the last batch and the year of the first. -/
theorem readRtc_spec {passes : ℕ} {t reading : ClockTime} {script : List Access}
    {registerB : UInt8} {d : DateTime} {c : Rtc}
    (h : readRtc passes t script (.start registerB d) = some (reading, c)) :
    ∃ n m, n ≤ c.elapsed ∧ m ≤ c.elapsed ∧
      lastRead 0x09 c.journal = some (DateTime.tick^[n] d) ∧
      lastRead 0x04 c.journal = some (DateTime.tick^[m] d) ∧
      reading = convert registerB (shown registerB (DateTime.tick^[m] d)
        (encode registerB (DateTime.tick^[n] d).year)) := by
  simp only [readRtc, Option.bind_eq_bind, Option.bind_eq_some_iff, Prod.exists] at h
  obtain ⟨t₁, s₁, c₁, hfirst, year, s₂, c₂, hyear, t₃, s₃, c₃, hloop, b, s₄, c₄, hb, hresult⟩ := h
  obtain ⟨n, -, hc₁⟩ := readBatch_spec hfirst
  obtain ⟨hshown, hc₂⟩ := getRtcRegister_date (by rw [hc₁]) (by decide) hyear
  obtain ⟨m, hsettled⟩ := readUntilStable_settled hloop
  obtain ⟨k, hb, hc₄⟩ := getRtcRegister_other (by decide) hb
  simp only [Option.some.injEq, Prod.mk.injEq] at hresult
  obtain ⟨rfl, rfl⟩ := hresult
  -- The clock after the first batch, after the loop and at the end.
  have hB : c₂.registerB = registerB := by rw [hc₂, hc₁]; rfl
  have hnow₂ : c₂.now = DateTime.tick^[n] d := by rw [hc₂, hc₁]; rfl
  have helapsed₂ : c₂.elapsed = n := by rw [hc₂, hc₁]; exact Nat.zero_add n
  have hjournal₂ : lastRead 0x09 c₂.journal = some (DateTime.tick^[n] d) := by
    rw [← hnow₂, hc₂]
    rfl
  have hnow : c₃.now = DateTime.tick^[m + n] d := by
    rw [hsettled.now, Rtc.advance, hnow₂, Function.iterate_add_apply]
  have helapsed : c₄.elapsed = n + m + k := by
    rw [hc₄, ← helapsed₂, ← hsettled.elapsed]
    rfl
  have hjournal : ∀ reg, reg ≠ 0x0B → lastRead reg c₄.journal = lastRead reg c₃.journal := by
    intro reg hreg
    rw [hc₄]
    simp [lastRead, Ne.symm hreg]
  refine ⟨n, m + n, by omega, by omega, ?_, ?_, ?_⟩
  · rw [hjournal _ (by decide), hsettled.year, hjournal₂]
  · rw [hjournal _ (by decide), hsettled.hour, hnow]
  · have hyear' : year = encode registerB (DateTime.tick^[n] d).year := by
      rw [hshown, ← hB, ← hnow₂, hc₂]
      rfl
    have hregister : b = registerB := by
      rw [hb, ← hB, ← hsettled.registerB]
      rfl
    rw [hsettled.shown, hnow, hregister, hB, hyear']

/-- The reading is the date-time of one instant between the start and the end of the call. -/
def Held (start : DateTime) (c : Rtc) (reading : ClockTime) : Prop :=
  ∃ n ≤ c.elapsed, reading = plain (DateTime.tick^[n] start)

/-- The year has not changed between the only read of it and the last batch, and with 12 hours
the last batch was not read in the hour of midnight or noon. -/
def Undisturbed (registerB : UInt8) (c : Rtc) : Prop :=
  ∃ first last, lastRead 0x09 c.journal = some first ∧ lastRead 0x04 c.journal = some last ∧
    first.year = last.year ∧ (registerB &&& 0x02 = 0 → last.hour % 12 ≠ 0)

theorem ofNat_inj {a b : ℕ} (ha : a < 256) (hb : b < 256) (h : UInt8.ofNat a = .ofNat b) : a = b := by
  have hval := congrArg UInt8.toNat h
  rw [UInt8.toNat_ofNat', UInt8.toNat_ofNat'] at hval
  omega

theorem hourRead_lt {registerB : UInt8} {hour : ℕ} (h : hour < 24) : hourRead registerB hour < 24 := by
  rw [hourRead]
  split_ifs <;> omega

/-- Half a day apart, the wrong hour cannot be that of another instant of a shorter call. -/
theorem instant_unique {d : DateTime} {registerB : UInt8} {n m : ℕ} (hn : n < 43200)
    (hm : m < 43200) (hsecond : (DateTime.tick^[n] d).second = (DateTime.tick^[m] d).second)
    (hminute : (DateTime.tick^[n] d).minute = (DateTime.tick^[m] d).minute)
    (hhour : (DateTime.tick^[n] d).hour = hourRead registerB (DateTime.tick^[m] d).hour) :
    n = m ∧ (registerB &&& 0x02 = 0 → (DateTime.tick^[m] d).hour % 12 ≠ 0) := by
  have hlt := (DateTime.tick^[m] d).hour_lt
  have htod := DateTime.timeOfDay_iterate d n
  have htod' := DateTime.timeOfDay_iterate d m
  rw [DateTime.timeOfDay] at htod htod'
  rw [hsecond, hminute, hhour, hourRead] at htod
  split_ifs at htod with hwrong
  · omega
  · refine ⟨by omega, fun htwelve hzero => hwrong ⟨htwelve, hzero⟩⟩

/-- An undisturbed reading is a date-time the clock had during the call, in each of the four
modes. A call of less than twelve hours returns no other such reading. -/
theorem readRtc_held {passes : ℕ} {t reading : ClockTime} {script : List Access}
    {registerB : UInt8} {start : DateTime} {c : Rtc}
    (h : readRtc passes t script (.start registerB start) = some (reading, c)) :
    (Undisturbed registerB c → Held start c reading) ∧
    (c.elapsed < 43200 → (Held start c reading ↔ Undisturbed registerB c)) := by
  obtain ⟨n, m, hn, hm, hfirst, hlast, rfl⟩ := readRtc_spec h
  rw [convert_shown _ _ (DateTime.year_lt _)]
  have hsound : Undisturbed registerB c → Held start c ⟨.ofNat (DateTime.tick^[m] start).second,
      .ofNat (DateTime.tick^[m] start).minute,
      .ofNat (hourRead registerB (DateTime.tick^[m] start).hour),
      .ofNat (DateTime.tick^[m] start).day, .ofNat (DateTime.tick^[m] start).month,
      .ofNat (DateTime.tick^[n] start).year⟩ := by
    rintro ⟨first, last, hfirst', hlast', hyear, hhour⟩
    obtain rfl : DateTime.tick^[n] start = first := Option.some.inj (hfirst.symm.trans hfirst')
    obtain rfl : DateTime.tick^[m] start = last := Option.some.inj (hlast.symm.trans hlast')
    have hsame : hourRead registerB (DateTime.tick^[m] start).hour = (DateTime.tick^[m] start).hour :=
      if_neg fun hwrong => hhour hwrong.1 hwrong.2
    exact ⟨m, hm, by rw [plain, hsame, hyear]⟩
  refine ⟨hsound, fun hshort => ⟨?_, hsound⟩⟩
  rintro ⟨k, hk, heq⟩
  simp only [plain, ClockTime.mk.injEq] at heq
  obtain ⟨hsecond, hminute, hhour, -, -, hyear⟩ := heq
  have hsecond' := ofNat_inj ((DateTime.second_lt _).trans (by decide))
    ((DateTime.second_lt _).trans (by decide)) hsecond
  have hminute' := ofNat_inj ((DateTime.minute_lt _).trans (by decide))
    ((DateTime.minute_lt _).trans (by decide)) hminute
  have hhour' := ofNat_inj ((hourRead_lt (DateTime.hour_lt _)).trans (by decide))
    ((DateTime.hour_lt _).trans (by decide)) hhour
  have hyear' := ofNat_inj ((DateTime.year_lt _).trans (by decide))
    ((DateTime.year_lt _).trans (by decide)) hyear
  obtain ⟨rfl, hright⟩ := instant_unique (hk.trans_lt hshort) (hm.trans_lt hshort) hsecond'.symm
    hminute'.symm hhour'.symm
  exact ⟨_, _, hfirst, hlast, hyear', hright⟩

/-- A batch of so many reads, so many seconds after the last access. -/
def batch (updates reads : ℕ) : List Access := ⟨updates, false⟩ :: List.replicate reads ⟨0, false⟩

def lastSecond : DateTime where
  second := 59
  minute := 59
  hour := 23
  day := 31
  month := 12
  year := 23
  second_lt := by decide
  minute_lt := by decide
  hour_lt := by decide
  day_pos := by decide
  day_le := by decide
  month_pos := by decide
  month_le := by decide
  year_lt := by decide

def evening : DateTime := { lastSecond with second := 58, second_lt := by decide }

def noon : DateTime :=
  { lastSecond with
    second := 0
    minute := 0
    hour := 12
    second_lt := by decide
    minute_lt := by decide
    hour_lt := by decide }

/-- The clock advances after the first batch, the third one agrees with the second. -/
def threeBatches : List Access := batch 0 6 ++ batch 1 5 ++ batch 0 5 ++ [⟨0, false⟩]

def unread : ClockTime := ⟨0, 0, 0, 0, 0, 0⟩

theorem readRtc_held_evening : ∃ c,
    readRtc 2 unread threeBatches (.start 0 evening) = some (⟨59, 59, 23, 31, 12, 23⟩, c) ∧
    Held evening c ⟨59, 59, 23, 31, 12, 23⟩ := by
  obtain ⟨c, hrun, hfirst, hlast⟩ : ∃ c,
      readRtc 2 unread threeBatches (.start 0 evening) = some (⟨59, 59, 23, 31, 12, 23⟩, c) ∧
      lastRead 0x09 c.journal = some evening ∧ lastRead 0x04 c.journal = some evening.tick :=
    ⟨_, rfl, rfl, rfl⟩
  exact ⟨c, hrun, (readRtc_held hrun).1 ⟨_, _, hfirst, hlast, by decide, by decide⟩⟩

/-- In binary and with 24 hours, the new year is read with the number of the old one. In BCD and
with 12 hours, noon is read as midnight. -/
theorem readRtc_never_held :
    (∃ c, readRtc 2 unread threeBatches (.start 0x06 lastSecond) =
      some (⟨0, 0, 0, 1, 1, 23⟩, c) ∧ ¬Held lastSecond c ⟨0, 0, 0, 1, 1, 23⟩) ∧
    ∃ c, readRtc 2 unread threeBatches (.start 0 noon) = some (⟨1, 0, 0, 31, 12, 23⟩, c) ∧
      ¬Held noon c ⟨1, 0, 0, 31, 12, 23⟩ := by
  refine ⟨⟨_, rfl, ?_⟩, ⟨_, rfl, ?_⟩⟩
  · rintro ⟨n, hn, heq⟩
    change n ≤ 1 at hn
    interval_cases n <;> exact absurd heq (by decide)
  · rintro ⟨n, hn, heq⟩
    change n ≤ 1 at hn
    interval_cases n <;> exact absurd heq (by decide)

end Os2024.Clock
