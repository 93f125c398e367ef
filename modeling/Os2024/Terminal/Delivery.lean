import Os2024.Library.OneSlot
import Os2024.Terminal.Modifiers

/-! # The way of a typed character

The driver has room for one character, from the press of the key to the next call of
`get_keyboard_buffer`. Apart from those of the modifiers every scan code is looked up
and stored, also the ones that stand for no character.
-/

namespace Os2024.Terminal
open Library.StepwiseRuns Library.OneSlot

/-- An interrupt of the keyboard, or a call of `get_keyboard_buffer`. -/
inductive DriverEvent where
  | interrupt (scancode : UInt8)
  | poll

def driverStep (s : KeyboardDriverState) : DriverEvent → KeyboardDriverState
  | .interrupt scancode => keyboardIsr scancode s
  | .poll => (getKeyboardBuffer s).2

/-- What a call after these events answers. -/
def answer (s : KeyboardDriverState) (events : List DriverEvent) : UInt8 :=
  (getKeyboardBuffer (events.foldl driverStep s)).1

/-- The character a scan code maps to under the current state of Shift; 0 stands for none. -/
def keyChar (s : KeyboardDriverState) (scancode : UInt8) : UInt8 :=
  if s.pressShift then keyboardScancode1ToAsciiMapShift scancode
  else keyboardScancode1ToAsciiMap scancode

/-- The press of a character key puts its character, a call takes it; releases, prefixes and keys
without a character are to keep it. -/
def DriverEvent.effect (s : KeyboardDriverState) : DriverEvent → Effect UInt8
  | .interrupt scancode => if keyChar s scancode = 0 then .keep else .put (keyChar s scancode)
  | .poll => .take

def KeyboardDriverState.unread (s : KeyboardDriverState) : Option UInt8 :=
  if s.keyboardBuffer = 0 then none else some s.keyboardBuffer

/-- No event discards a character that it is to keep. The call that is the first one after a press,
with no other character key between them, answers with the character. An answer other than 0 is the
character of a press since which nothing has been read or typed. -/
structure Reliable (s : KeyboardDriverState) (events : List DriverEvent) : Prop where
  kept : ∀ before event after, events = before ++ event :: after →
    Keeps DriverEvent.effect (before.foldl driverStep s) event →
    (driverStep (before.foldl driverStep s) event).keyboardBuffer =
      (before.foldl driverStep s).keyboardBuffer
  delivered : ∀ before event mid after c, events = before ++ event :: (mid ++ .poll :: after) →
    event.effect (before.foldl driverStep s) = .put c →
    Along driverStep (Keeps DriverEvent.effect) mid (driverStep (before.foldl driverStep s) event) →
    answer s (before ++ event :: mid) = c
  genuine : ∀ before after, events = before ++ .poll :: after → answer s before ≠ 0 →
    ∃ before' event mid, before = before' ++ event :: mid ∧
      event.effect (before'.foldl driverStep s) = .put (answer s before) ∧
      Along driverStep (Keeps DriverEvent.effect) mid (driverStep (before'.foldl driverStep s) event)

def ModifierCode (scancode : UInt8) : Prop :=
  (shiftFlag scancode).isSome ∨ (ctrlFlag scancode).isSome

instance : DecidablePred ModifierCode := fun scancode =>
  inferInstanceAs (Decidable ((shiftFlag scancode).isSome ∨ (ctrlFlag scancode).isSome))

/-- A scan code without a character comes only when no character is waiting, unless it is that of a
modifier. -/
def Undisturbed (s : KeyboardDriverState) : DriverEvent → Prop
  | .interrupt scancode => keyChar s scancode = 0 → ModifierCode scancode ∨ s.keyboardBuffer = 0
  | .poll => True

section Step
variable {s : KeyboardDriverState} {scancode : UInt8}

theorem readExtended_keyboardBuffer (scancode : UInt8) (s : KeyboardDriverState) :
    (readExtended scancode s).keyboardBuffer = s.keyboardBuffer := by
  rw [readExtended]
  split_ifs <;> rfl

/-- The three keys with branches of their own have the same characters in both tables. -/
theorem keyChar_control : keyChar s 0x1C = '\n'.toUInt8 ∧ keyChar s 0x0E = '\x08'.toUInt8 ∧
    keyChar s 0x0F = '\t'.toUInt8 := by
  rw [keyChar, keyChar, keyChar]
  cases s.pressShift <;> decide

theorem modifierCode_iff : ModifierCode scancode ↔ (scancode = 0x2A ∨ scancode = 0x36) ∨
    (scancode = 0xAA ∨ scancode = 0xB6) ∨ scancode = 0x1D ∨ scancode = 0x9D := by
  rw [ModifierCode, shiftFlag, ctrlFlag]
  split_ifs <;> simp [*]

theorem readScancode_keyboardBuffer (scancode : UInt8) (s : KeyboardDriverState) :
    (readScancode scancode s).keyboardBuffer =
      if ModifierCode scancode then s.keyboardBuffer else keyChar s scancode := by
  obtain ⟨henter, hback, htab⟩ := @keyChar_control s
  by_cases hmod : ModifierCode scancode
  · rw [if_pos hmod]
    rcases modifierCode_iff.mp hmod with (rfl | rfl) | (rfl | rfl) | rfl | rfl <;> rfl
  · rw [if_neg hmod, readScancode]
    rw [modifierCode_iff] at hmod
    obtain ⟨hshift, hmod⟩ := not_or.mp hmod
    obtain ⟨hshift', hmod⟩ := not_or.mp hmod
    obtain ⟨hctrl, hctrl'⟩ := not_or.mp hmod
    rw [if_neg hshift, if_neg hshift', if_neg hctrl, if_neg hctrl']
    split_ifs with hcode hcode hcode hpress
    · rw [hcode, henter]
    · rw [hcode, hback]
    · rw [hcode, htab]
    · rw [keyChar, if_pos hpress]
    · rw [keyChar, if_neg hpress]

theorem keyboardIsr_keyboardBuffer (hon : s.keyboardInputOn = true) :
    (keyboardIsr scancode s).keyboardBuffer =
      if ModifierCode scancode then s.keyboardBuffer else keyChar s scancode := by
  have hshift : keyChar (readExtended scancode s) scancode = keyChar s scancode := by
    rw [keyChar, (readExtended_flags scancode s).1, keyChar]
  rw [keyboardIsr, if_pos hon, readScancode_keyboardBuffer, readExtended_keyboardBuffer, hshift]

theorem keyChar_of_modifier (h : ModifierCode scancode) : keyChar s scancode = 0 := by
  rw [keyChar]
  rcases modifierCode_iff.mp h with (rfl | rfl) | (rfl | rfl) | rfl | rfl <;>
    cases s.pressShift <;> decide

theorem driverStep_keyboardInputOn (hon : s.keyboardInputOn = true) (event : DriverEvent) :
    (driverStep s event).keyboardInputOn = true := by
  cases event with
  | interrupt scancode => simp [driverStep, hon]
  | poll => exact hon

theorem unread_eq_some {c : UInt8} : s.unread = some c ↔ c ≠ 0 ∧ s.keyboardBuffer = c := by
  rw [KeyboardDriverState.unread]
  split_ifs with hzero
  · simp only [hzero, false_iff, not_and]
    exact fun hc h => hc h.symm
  · rw [Option.some.injEq]
    constructor
    · rintro rfl
      exact ⟨hzero, rfl⟩
    · exact And.right

theorem unread_eq_none : s.unread = none ↔ s.keyboardBuffer = 0 := by
  rw [KeyboardDriverState.unread]
  split_ifs with hzero <;> simp [hzero]

/-- The driver does what it is to do with the next event exactly when the event is undisturbing. -/
theorem obeys_iff (hon : s.keyboardInputOn = true) (event : DriverEvent) :
    Obeys driverStep DriverEvent.effect KeyboardDriverState.unread s event ↔
      Undisturbed s event := by
  rw [Obeys]
  cases event with
  | poll => exact iff_of_true rfl trivial
  | interrupt scancode =>
    have hbuffer := @keyboardIsr_keyboardBuffer s scancode hon
    rw [DriverEvent.effect, Undisturbed, driverStep]
    by_cases hmod : ModifierCode scancode
    · rw [if_pos hmod] at hbuffer
      rw [if_pos (keyChar_of_modifier hmod)]
      apply iff_of_true
      · rw [KeyboardDriverState.unread, hbuffer]
        rfl
      · exact fun _ => .inl hmod
    · rw [if_neg hmod] at hbuffer
      split_ifs with hchar
      · -- the scan code is stored as 0
        rw [hchar] at hbuffer
        rw [unread_eq_none.mpr hbuffer, Effect.apply, eq_comm, unread_eq_none]
        exact ⟨fun h _ => .inr h, fun h => (h hchar).resolve_left hmod⟩
      · apply iff_of_true
        · rw [Effect.apply, unread_eq_some]
          exact ⟨hchar, hbuffer⟩
        · exact fun hzero => absurd hzero hchar

/-- An event that is to keep the character obeys when it does so; the others always obey. -/
theorem obeys_of_kept (hon : s.keyboardInputOn = true) {event : DriverEvent}
    (hkept : Keeps DriverEvent.effect s event →
      (driverStep s event).keyboardBuffer = s.keyboardBuffer) :
    Obeys driverStep DriverEvent.effect KeyboardDriverState.unread s event := by
  rw [obeys_iff hon]
  cases event with
  | poll => trivial
  | interrupt scancode =>
    intro hchar
    by_cases hmod : ModifierCode scancode
    · exact .inl hmod
    · have hsame := hkept (if_pos hchar)
      rw [driverStep, keyboardIsr_keyboardBuffer hon, if_neg hmod, hchar] at hsame
      exact .inr hsame.symm

end Step

section Runs
variable {s : KeyboardDriverState} {events : List DriverEvent}

theorem foldl_keyboardInputOn (hon : s.keyboardInputOn = true) (events : List DriverEvent) :
    (events.foldl driverStep s).keyboardInputOn = true := by
  induction events generalizing s with
  | nil => exact hon
  | cons event events ih => exact ih (driverStep_keyboardInputOn hon event)

/-- A driver that obeys is reliable. -/
theorem reliable_of_obeys (hempty : s.keyboardBuffer = 0)
    (h : Along driverStep (Obeys driverStep DriverEvent.effect KeyboardDriverState.unread) events s) :
    Reliable s events := by
  refine ⟨?_, ?_, ?_⟩
  · intro before event after heq hkeep
    have hobeys := along_iff_forall_split.mp h before event after heq
    rw [Obeys, hkeep, Effect.apply] at hobeys
    by_cases hzero : (before.foldl driverStep s).keyboardBuffer = 0
    · rw [unread_eq_none.mpr hzero, unread_eq_none] at hobeys
      rw [hobeys, hzero]
    · rw [unread_eq_some.mpr ⟨hzero, rfl⟩] at hobeys
      exact (unread_eq_some.mp hobeys).2
  · rintro before event mid after c rfl hput hmid
    obtain ⟨-, hrest⟩ := along_append.mp h
    rw [← List.cons_append] at hrest
    have hcontent := content_of_put (along_append.mp hrest).1 hput hmid
    rw [answer, List.foldl_append]
    exact (unread_eq_some.mp hcontent).2
  · rintro before after rfl hanswer
    exact content_origin (along_append.mp h).1 (unread_eq_none.mpr hempty)
      (unread_eq_some.mpr ⟨hanswer, rfl⟩)

/-- The driver is reliable in a run exactly when no scan code without a character, other than those
of the modifiers, comes while a character is waiting. -/
theorem reliable_iff_undisturbed (hon : s.keyboardInputOn = true) (hempty : s.keyboardBuffer = 0)
    (events : List DriverEvent) : Reliable s events ↔ Along driverStep Undisturbed events s := by
  have hobeys : Along driverStep (Obeys driverStep DriverEvent.effect KeyboardDriverState.unread)
      events s ↔ Along driverStep Undisturbed events s :=
    along_iff (I := fun s => s.keyboardInputOn = true) hon (fun _ event hs => obeys_iff hs event)
      fun _ event hs _ => driverStep_keyboardInputOn hs event
  rw [← hobeys]
  constructor
  · intro h
    rw [along_iff_forall_split]
    intro before event after heq
    exact obeys_of_kept (foldl_keyboardInputOn hon before) (h.kept before event after heq)
  · exact reliable_of_obeys hempty

end Runs

theorem reliable_iff_undisturbed_read : Reliable activeKeyboard [.interrupt 0x1E, .poll,
      .interrupt 0x9E, .interrupt 0x2A, .interrupt 0x1E, .interrupt 0xAA, .poll] ↔
    Along driverStep Undisturbed [.interrupt 0x1E, .poll, .interrupt 0x9E, .interrupt 0x2A,
      .interrupt 0x1E, .interrupt 0xAA, .poll] activeKeyboard :=
  reliable_iff_undisturbed rfl rfl _

/-- The key `a` is released before it is read. -/
theorem release_discards :
    activeKeyboard.keyboardInputOn = true ∧ activeKeyboard.keyboardBuffer = 0 ∧
    ¬Reliable activeKeyboard [.interrupt 0x1E, .interrupt 0x9E, .poll] := by
  refine ⟨rfl, rfl, fun hreliable => ?_⟩
  have hread := hreliable.delivered [] (.interrupt 0x1E) [.interrupt 0x9E] [] 0x61 rfl rfl
    ⟨rfl, trivial⟩
  exact absurd hread (by decide)

end Os2024.Terminal
