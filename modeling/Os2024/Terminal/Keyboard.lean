import Mathlib.Tactic

/-! # The keyboard driver of keyboard.c

The state of the driver also holds the text cursor and the limits of the window
it moves in. Every scan code is one interrupt.
-/

namespace Os2024.Terminal

/-- `struct KeyboardDriverState`. -/
structure KeyboardDriverState where
  readExtendedMode : Bool
  keyboardInputOn : Bool
  keyboardBuffer : UInt8
  keyboardBufferExt : UInt8
  pressShift : Bool
  pressCtrl : Bool
  row : UInt8
  col : UInt8
  lastNonSpaceCol : Fin 25 → UInt8
  upLimit : UInt8
  downLimit : UInt8
  leftLimit : UInt8
  rightLimit : UInt8

/-- The static initialiser. -/
def initialKeyboard : KeyboardDriverState where
  readExtendedMode := false
  keyboardInputOn := false
  keyboardBuffer := 0
  keyboardBufferExt := 0
  pressShift := false
  pressCtrl := false
  row := 0
  col := 0
  lastNonSpaceCol := fun _ => 0
  upLimit := 0
  downLimit := 24
  leftLimit := 0
  rightLimit := 79

/-- The entries from 0 on; the rest of the table is 0. -/
def scancodeTable (text : List Char) : UInt8 → UInt8 := fun scancode =>
  ((text.map Char.toUInt8).getD scancode.toNat 0)

def keyboardScancode1ToAsciiMap : UInt8 → UInt8 := scancodeTable [
  '\x00', '\x1B', '1', '2', '3', '4', '5', '6', '7', '8', '9', '0', '-', '=', '\x08', '\t',
  'q', 'w', 'e', 'r', 't', 'y', 'u', 'i', 'o', 'p', '[', ']', '\n', '\x00', 'a', 's',
  'd', 'f', 'g', 'h', 'j', 'k', 'l', ';', '\'', '`', '\x00', '\\', 'z', 'x', 'c', 'v',
  'b', 'n', 'm', ',', '.', '/', '\x00', '*', '\x00', ' ', '\x00', '\x00', '\x00', '\x00', '\x00', '\x00',
  '\x00', '\x00', '\x00', '\x00', '\x00', '\x00', '\x00', '\x00', '\x00', '\x00', '-', '\x00', '\x00', '\x00', '+', '\x00']

def keyboardScancode1ToAsciiMapShift : UInt8 → UInt8 := scancodeTable [
  '\x00', '\x1B', '!', '@', '#', '$', '%', '^', '&', '*', '(', ')', '_', '+', '\x08', '\t',
  'Q', 'W', 'E', 'R', 'T', 'Y', 'U', 'I', 'O', 'P', '{', '}', '\n', '\x00', 'A', 'S',
  'D', 'F', 'G', 'H', 'J', 'K', 'L', ':', '"', '~', '\x00', '|', 'Z', 'X', 'C', 'V',
  'B', 'N', 'M', '<', '>', '?', '\x00', '*', '\x00', ' ']

/-- The answer to `get_keyboard_buffer_ext` after an arrow key. -/
def extBuffer (scancode : UInt8) : UInt8 :=
  if scancode = 0x48 then 1
  else if scancode = 0x50 then 2
  else if scancode = 0x4B then 3
  else if scancode = 0x4D then 4
  else 0

/-- The first half of the handler. Nothing ever leaves the extended mode. -/
def readExtended (scancode : UInt8) (s : KeyboardDriverState) : KeyboardDriverState :=
  if scancode = 0xE0 then { s with readExtendedMode := true }
  else if s.readExtendedMode then { s with keyboardBufferExt := extBuffer scancode }
  else s

/-- The second half, which looks at the scan code alone, prefixed or not. -/
def readScancode (scancode : UInt8) (s : KeyboardDriverState) : KeyboardDriverState :=
  if scancode = 0x2A ∨ scancode = 0x36 then { s with pressShift := true }
  else if scancode = 0xAA ∨ scancode = 0xB6 then { s with pressShift := false }
  else if scancode = 0x1D then { s with pressCtrl := true }
  else if scancode = 0x9D then { s with pressCtrl := false }
  else if scancode = 0x1C then { s with keyboardBuffer := '\n'.toUInt8 }
  else if scancode = 0x0E then { s with keyboardBuffer := '\x08'.toUInt8 }
  else if scancode = 0x0F then { s with keyboardBuffer := '\t'.toUInt8 }
  else if s.pressShift then { s with keyboardBuffer := keyboardScancode1ToAsciiMapShift scancode }
  else { s with keyboardBuffer := keyboardScancode1ToAsciiMap scancode }

def keyboardIsr (scancode : UInt8) (s : KeyboardDriverState) : KeyboardDriverState :=
  if s.keyboardInputOn then readScancode scancode (readExtended scancode s) else s

def keyboardStateActivate (s : KeyboardDriverState) : KeyboardDriverState :=
  { s with keyboardInputOn := true }

def keyboardStateDeactivate (s : KeyboardDriverState) : KeyboardDriverState :=
  { s with keyboardInputOn := false }

/-- The character is handed out once. -/
def getKeyboardBuffer (s : KeyboardDriverState) : UInt8 × KeyboardDriverState :=
  (s.keyboardBuffer, { s with keyboardBuffer := 0 })

def getKeyboardBufferExt (s : KeyboardDriverState) : UInt8 × KeyboardDriverState :=
  (s.keyboardBufferExt, { s with keyboardBufferExt := 0 })

/-- The state of Shift that a scan code announces. -/
def shiftFlag (scancode : UInt8) : Option Bool :=
  if scancode = 0x2A ∨ scancode = 0x36 then some true
  else if scancode = 0xAA ∨ scancode = 0xB6 then some false
  else none

def ctrlFlag (scancode : UInt8) : Option Bool :=
  if scancode = 0x1D then some true
  else if scancode = 0x9D then some false
  else none

section Flags
variable (scancode : UInt8) (s : KeyboardDriverState)

@[simp] theorem readExtended_flags : (readExtended scancode s).pressShift = s.pressShift ∧
    (readExtended scancode s).pressCtrl = s.pressCtrl ∧
    (readExtended scancode s).keyboardInputOn = s.keyboardInputOn := by
  rw [readExtended]
  split_ifs <;> simp

theorem readScancode_pressShift :
    (readScancode scancode s).pressShift = (shiftFlag scancode).getD s.pressShift := by
  simp only [readScancode, shiftFlag, apply_ite KeyboardDriverState.pressShift,
    apply_ite (Option.getD · s.pressShift), Option.getD_some, Option.getD_none, ite_self]

theorem readScancode_pressCtrl :
    (readScancode scancode s).pressCtrl = (ctrlFlag scancode).getD s.pressCtrl := by
  simp only [readScancode, ctrlFlag, apply_ite KeyboardDriverState.pressCtrl,
    apply_ite (Option.getD · s.pressCtrl), Option.getD_some, Option.getD_none, ite_self]
  split_ifs <;> simp_all

theorem readScancode_keyboardInputOn :
    (readScancode scancode s).keyboardInputOn = s.keyboardInputOn := by
  simp only [readScancode, apply_ite KeyboardDriverState.keyboardInputOn, ite_self]

@[simp] theorem keyboardIsr_keyboardInputOn :
    (keyboardIsr scancode s).keyboardInputOn = s.keyboardInputOn := by
  rw [keyboardIsr]
  split_ifs
  · rw [readScancode_keyboardInputOn, (readExtended_flags scancode s).2.2]
  · rfl

variable {s} (hon : s.keyboardInputOn = true)
include hon

theorem keyboardIsr_pressShift :
    (keyboardIsr scancode s).pressShift = (shiftFlag scancode).getD s.pressShift := by
  rw [keyboardIsr, if_pos hon, readScancode_pressShift, (readExtended_flags scancode s).1]

theorem keyboardIsr_pressCtrl :
    (keyboardIsr scancode s).pressCtrl = (ctrlFlag scancode).getD s.pressCtrl := by
  rw [keyboardIsr, if_pos hon, readScancode_pressCtrl, (readExtended_flags scancode s).2.1]

end Flags

end Os2024.Terminal
