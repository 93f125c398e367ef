import Os2024.Library.Calendar

/-! # The real-time clock behind cmos.c

The clock is a date-time that may advance between any two accesses to the port. It
shows the date-time in BCD or binary and with 12 or 24 hours, as its register B
says. The driver reads it once, and then again until two batches agree.
-/

namespace Os2024.Clock
open Library.Calendar

/-- What the clock does until the next access: it advances by some seconds, and it may be in the
middle of an update. -/
structure Access where
  updates : ℕ
  updating : Bool

/-- The clock, the seconds since the start of the call, whether the flag was last seen clear, and
the registers that were read with the date-time at that instant. -/
structure Rtc where
  registerB : UInt8
  now : DateTime
  elapsed : ℕ
  ready : Bool
  journal : List (UInt8 × DateTime)

def toBcd (n : ℕ) : UInt8 := UInt8.ofNat (n / 10 * 16 + n % 10)

/-- Bit 2 of register B selects binary numbers. -/
def encode (registerB : UInt8) (n : ℕ) : UInt8 :=
  if registerB &&& 0x04 = 0 then toBcd n else UInt8.ofNat n

/-- Bit 1 of register B selects 24 hours. With 12 hours the high bit stands for PM. -/
def encodeHour (registerB : UInt8) (hour : ℕ) : UInt8 :=
  if registerB &&& 0x02 = 0 then
    encode registerB (if hour % 12 = 0 then 12 else hour % 12) ||| (if hour < 12 then 0 else 0x80)
  else encode registerB hour

def register (registerB : UInt8) (d : DateTime) (reg : UInt8) : UInt8 :=
  if reg = 0x00 then encode registerB d.second
  else if reg = 0x02 then encode registerB d.minute
  else if reg = 0x04 then encodeHour registerB d.hour
  else if reg = 0x07 then encode registerB d.day
  else if reg = 0x08 then encode registerB d.month
  else if reg = 0x09 then encode registerB d.year
  else if reg = 0x0B then registerB
  else 0

def dateRegisters : List UInt8 := [0x00, 0x02, 0x04, 0x07, 0x08, 0x09]

def Rtc.advance (updates : ℕ) (c : Rtc) : Rtc :=
  { c with now := DateTime.tick^[updates] c.now, elapsed := c.elapsed + updates }

/-- The flag `& 0x80`, seen at one access. -/
def getUpdateInProgressFlag (a : Access) (c : Rtc) : Bool × Rtc :=
  (a.updating, { c.advance a.updates with ready := !a.updating })

/-- No update happens between a clear flag and the end of the batch of reads behind it, so such a
sequence of accesses has no value either. -/
def getRtcRegister (reg : UInt8) : List Access → Rtc → Option (UInt8 × List Access × Rtc)
  | [], _ => none
  | a :: rest, c =>
    if c.ready = true ∧ reg ∈ dateRegisters ∧ a.updates ≠ 0 then none else
    let c := c.advance a.updates
    some (register c.registerB c.now reg, rest, { c with journal := (reg, c.now) :: c.journal })

/-- `while (get_update_in_progress_flag());` -/
def waitForUpdate : List Access → Rtc → Option (List Access × Rtc)
  | [], _ => none
  | a :: rest, c =>
    let (updating, c) := getUpdateInProgressFlag a c
    if updating then waitForUpdate rest c else some (rest, c)

/-- `struct SyscallClockTimeArgs`. -/
@[ext] structure ClockTime where
  second : UInt8
  minute : UInt8
  hour : UInt8
  day : UInt8
  month : UInt8
  year : UInt8
  deriving DecidableEq

/-- The reads that both batches have in common; the year stays what it was. -/
def readBatch (t : ClockTime) (script : List Access) (c : Rtc) :
    Option (ClockTime × List Access × Rtc) := do
  let (script, c) ← waitForUpdate script c
  let (second, script, c) ← getRtcRegister 0x00 script c
  let (minute, script, c) ← getRtcRegister 0x02 script c
  let (hour, script, c) ← getRtcRegister 0x04 script c
  let (day, script, c) ← getRtcRegister 0x07 script c
  let (month, script, c) ← getRtcRegister 0x08 script c
  some ({ t with second, minute, hour, day, month }, script, c)

/-- The `do`-`while` loop, cut off after so many passes. The year is not read again. -/
def readUntilStable : ℕ → ClockTime → List Access → Rtc → Option (ClockTime × List Access × Rtc)
  | 0, _, _, _ => none
  | passes + 1, last, script, c =>
    match readBatch last script c with
    | none => none
    | some (t, script, c) =>
      if last.second ≠ t.second ∨ last.minute ≠ t.minute ∨ last.hour ≠ t.hour ∨
          last.day ≠ t.day ∨ last.month ≠ t.month ∨ last.year ≠ t.year then
        readUntilStable passes t script c
      else some (t, script, c)

def fromBcd (b : UInt8) : UInt8 := (b &&& 0x0F) + b / 16 * 10

def convert (registerB : UInt8) (t : ClockTime) : ClockTime :=
  let t : ClockTime := if registerB &&& 0x04 = 0 then
      { second := fromBcd t.second
        minute := fromBcd t.minute
        hour := ((t.hour &&& 0x0F) + (t.hour &&& 0x70) / 16 * 10) ||| (t.hour &&& 0x80)
        day := fromBcd t.day
        month := fromBcd t.month
        year := fromBcd t.year }
    else t
  if registerB &&& 0x02 = 0 ∧ t.hour &&& 0x80 ≠ 0 then
    { t with hour := ((t.hour &&& 0x7F) + 12) % 24 }
  else t

def readRtc (passes : ℕ) (t : ClockTime) (script : List Access) (c : Rtc) :
    Option (ClockTime × Rtc) := do
  let (t, script, c) ← readBatch t script c
  let (year, script, c) ← getRtcRegister 0x09 script c
  let (t, script, c) ← readUntilStable passes { t with year } script c
  let (registerB, _, c) ← getRtcRegister 0x0B script c
  some (convert registerB t, c)

end Os2024.Clock
