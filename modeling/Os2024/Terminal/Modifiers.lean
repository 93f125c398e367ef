import Os2024.Library.StepwiseRuns
import Os2024.Terminal.Keyboard

/-! # Which modifier keys are held

Two Shift keys share one flag and so do the two Ctrl keys. A flag follows the keys
until one of two held keys is released, or until another key sends the scan code
of a modifier of its own.
-/

namespace Os2024.Terminal
open Library.StepwiseRuns

inductive Modifier where
  | leftShift
  | rightShift
  | leftCtrl
  | rightCtrl
  deriving DecidableEq

namespace Modifier

/-- The scan codes of a press, in scan code set 1. -/
def pressCodes : Modifier → List UInt8
  | .leftShift => [0x2A]
  | .rightShift => [0x36]
  | .leftCtrl => [0x1D]
  | .rightCtrl => [0xE0, 0x1D]

def releaseCodes : Modifier → List UInt8
  | .leftShift => [0xAA]
  | .rightShift => [0xB6]
  | .leftCtrl => [0x9D]
  | .rightCtrl => [0xE0, 0x9D]

/-- The key of the same kind on the other side. -/
def twin : Modifier → Modifier
  | .leftShift => .rightShift
  | .rightShift => .leftShift
  | .leftCtrl => .rightCtrl
  | .rightCtrl => .leftCtrl

end Modifier

/-- The press or release of a modifier, or of another key that sends these scan codes. -/
inductive KeyEvent where
  | press (key : Modifier)
  | release (key : Modifier)
  | other (scancodes : List UInt8)

def KeyEvent.scancodes : KeyEvent → List UInt8
  | .press key => key.pressCodes
  | .release key => key.releaseCodes
  | .other scancodes => scancodes

abbrev Held := Modifier → Bool

def KeyEvent.hold : KeyEvent → Held → Held
  | .press key, held => Function.update held key true
  | .release key, held => Function.update held key false
  | .other _, held => held

def Held.shift (held : Held) : Bool := held .leftShift || held .rightShift

def Held.ctrl (held : Held) : Bool := held .leftCtrl || held .rightCtrl

/-- One interrupt for each scan code of the event. -/
def deliver (scancodes : List UInt8) (s : KeyboardDriverState) : KeyboardDriverState :=
  scancodes.foldl (fun s scancode => keyboardIsr scancode s) s

def keyStep (x : Held × KeyboardDriverState) (event : KeyEvent) : Held × KeyboardDriverState :=
  (event.hold x.1, deliver event.scancodes x.2)

structure Tracked (x : Held × KeyboardDriverState) : Prop where
  shift : x.2.pressShift = x.1.shift
  ctrl : x.2.pressCtrl = x.1.ctrl

/-- The flag after some scan codes: the last one that speaks of it decides. -/
def settle (flag : UInt8 → Option Bool) (scancodes : List UInt8) (old : Bool) : Bool :=
  scancodes.foldl (fun old scancode => (flag scancode).getD old) old

section Deliver
variable {s : KeyboardDriverState} (scancodes : List UInt8)

@[simp] theorem deliver_keyboardInputOn :
    (deliver scancodes s).keyboardInputOn = s.keyboardInputOn := by
  induction scancodes generalizing s with
  | nil => rfl
  | cons scancode scancodes ih =>
    apply ih.trans
    simp

theorem deliver_pressShift (hon : s.keyboardInputOn = true) :
    (deliver scancodes s).pressShift = settle shiftFlag scancodes s.pressShift := by
  induction scancodes generalizing s with
  | nil => rfl
  | cons scancode scancodes ih =>
    apply (ih (by simp [hon])).trans
    rw [keyboardIsr_pressShift scancode hon]
    rfl

theorem deliver_pressCtrl (hon : s.keyboardInputOn = true) :
    (deliver scancodes s).pressCtrl = settle ctrlFlag scancodes s.pressCtrl := by
  induction scancodes generalizing s with
  | nil => rfl
  | cons scancode scancodes ih =>
    apply (ih (by simp [hon])).trans
    rw [keyboardIsr_pressCtrl scancode hon]
    rfl

end Deliver

/-- No modifier is released while its twin is held, and the scan codes of another key leave the
flags as the held keys have them. -/
def Careful (x : Held × KeyboardDriverState) : KeyEvent → Prop
  | .press _ => True
  | .release key => x.1 key.twin = false
  | .other scancodes => settle shiftFlag scancodes x.1.shift = x.1.shift ∧
      settle ctrlFlag scancodes x.1.ctrl = x.1.ctrl

instance (x : Held × KeyboardDriverState) : (event : KeyEvent) → Decidable (Careful x event)
  | .press _ => isTrue trivial
  | .release key => inferInstanceAs (Decidable (x.1 key.twin = false))
  | .other scancodes => inferInstanceAs (Decidable (settle shiftFlag scancodes x.1.shift =
      x.1.shift ∧ settle ctrlFlag scancodes x.1.ctrl = x.1.ctrl))

theorem tracked_keyStep_iff {x : Held × KeyboardDriverState} (hon : x.2.keyboardInputOn = true)
    (hx : Tracked x) (event : KeyEvent) : Tracked (keyStep x event) ↔ Careful x event := by
  obtain ⟨held, s⟩ := x
  have hshift : s.pressShift = held.shift := hx.shift
  have hctrl : s.pressCtrl = held.ctrl := hx.ctrl
  have hflags : Tracked (keyStep (held, s) event) ↔
      settle shiftFlag event.scancodes held.shift = (event.hold held).shift ∧
      settle ctrlFlag event.scancodes held.ctrl = (event.hold held).ctrl := by
    rw [← hshift, ← hctrl, ← deliver_pressShift _ hon, ← deliver_pressCtrl _ hon]
    exact ⟨fun h => ⟨h.shift, h.ctrl⟩, fun h => ⟨h.1, h.2⟩⟩
  rw [hflags]
  cases event with
  | press key =>
    cases key <;> simp [Careful, KeyEvent.scancodes, KeyEvent.hold, Modifier.pressCodes, settle,
      shiftFlag, ctrlFlag, Held.shift, Held.ctrl]
  | release key =>
    cases htwin : held key.twin <;> cases key <;> simp_all [Careful, KeyEvent.scancodes,
      KeyEvent.hold, Modifier.releaseCodes, Modifier.twin, settle, shiftFlag, ctrlFlag, Held.shift,
      Held.ctrl]
  | other scancodes => rfl

theorem settle_of_none {flag : UInt8 → Option Bool} {scancodes : List UInt8} {old : Bool}
    (h : ∀ scancode ∈ scancodes, flag scancode = none) : settle flag scancodes old = old := by
  induction scancodes with
  | nil => rfl
  | cons scancode scancodes ih =>
    simp only [List.forall_mem_cons] at h
    rw [settle, List.foldl_cons, h.1]
    exact ih h.2

theorem careful_other {x : Held × KeyboardDriverState} {scancodes : List UInt8}
    (h : ∀ scancode ∈ scancodes, shiftFlag scancode = none ∧ ctrlFlag scancode = none) :
    Careful x (.other scancodes) :=
  ⟨settle_of_none fun c hc => (h c hc).1, settle_of_none fun c hc => (h c hc).2⟩

def noKeys : Held := fun _ => false

/-- From a driver that is switched on while no modifier is held, the flags are right after every
beginning of a sequence of events exactly when each event of it is careful. -/
theorem modifiers_tracked_iff (s : KeyboardDriverState) (hon : s.keyboardInputOn = true)
    (hshift : s.pressShift = false) (hctrl : s.pressCtrl = false) (events : List KeyEvent) :
    (∀ events', events' <+: events → Tracked (events'.foldl keyStep (noKeys, s))) ↔
      Along keyStep Careful events (noKeys, s) := by
  have hstart : Tracked (noKeys, s) := ⟨hshift, hctrl⟩
  have hon' : ∀ (x : Held × KeyboardDriverState) event, x.2.keyboardInputOn = true →
      (keyStep x event).2.keyboardInputOn = true := fun x event hx => by simp [keyStep, hx]
  exact forall_prefix_iff_along (I := fun x => x.2.keyboardInputOn = true) hon hon' hstart
    fun x event hx hP => tracked_keyStep_iff hx hP event

def activeKeyboard : KeyboardDriverState := keyboardStateActivate initialKeyboard

theorem modifiers_tracked_overlap : Along keyStep Careful [.press .leftShift, .press .rightCtrl,
      .other [0x1E], .release .leftShift, .other [0x9E], .release .rightCtrl] (noKeys, activeKeyboard) ∧
    ∀ events', events' <+: [.press .leftShift, .press .rightCtrl, .other [0x1E],
      .release .leftShift, .other [0x9E], .release .rightCtrl] →
      Tracked (events'.foldl keyStep (noKeys, activeKeyboard)) :=
  ⟨by decide, (modifiers_tracked_iff activeKeyboard rfl rfl rfl _).mpr (by decide)⟩

/-- The right Shift key is released while the left one is held, and so is the right Ctrl key. The
third sequence is the key Print Screen, pressed alone. -/
theorem modifiers_lost :
    ¬Tracked ([.press .leftShift, .press .rightShift, .release .rightShift].foldl keyStep
      (noKeys, activeKeyboard)) ∧
    ¬Tracked ([.press .leftCtrl, .press .rightCtrl, .release .rightCtrl].foldl keyStep
      (noKeys, activeKeyboard)) ∧
    ¬Tracked ([.other [0xE0, 0x2A, 0xE0, 0x37]].foldl keyStep (noKeys, activeKeyboard)) := by
  refine ⟨fun h => ?_, fun h => ?_, fun h => ?_⟩
  · exact absurd h.shift (by decide)
  · exact absurd h.ctrl (by decide)
  · exact absurd h.shift (by decide)

end Os2024.Terminal
