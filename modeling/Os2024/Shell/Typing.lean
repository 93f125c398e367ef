import Os2024.Shell.Path
import Os2024.Terminal.Reading

/-! # Typing at the prompt

The shell keeps the characters of a command line, the kernel draws them and moves the
cursor. The two know of each other only through the cursor, which the shell compares
with the end of its prompt before it takes a character back.
-/

namespace Os2024.Shell
open Terminal Library.StepwiseRuns

/-- `struct ShellStatus`. -/
structure ShellStatus where
  isOpen : Bool
  delLimit : UInt8
  shellRow : UInt8

/-- Stack memory that the handler of a key uses without having set it: three bytes of each of the
variables `col` and `row`, and the byte in front of the input. Without the latter a look in front
of the input ends the run. -/
structure Slots where
  col : UInt32
  row : UInt32
  below : Option UInt8

structure Typing where
  screen : Screen
  status : ShellStatus
  shellInput : StringN

/-- `SYSCALL_PUTCHAR` in the colours of the input. -/
def putchar (c : UInt8) (t : Screen) : Except Fault Screen :=
  Terminal.puts (fun _ => c) ⟨0, 1, 0x7, 0⟩ t

/-- The call for the cursor stores one byte of the variable. -/
def withCursor (slot : UInt32) (x : UInt8) : Int32 := (slot &&& 0xFFFFFF00 ||| x.toUInt32).toInt32

/-- Check if the cursor is beyond the limit for backspaces. -/
def beyondLimit (slots : Slots) (x : Typing) : Bool :=
  withCursor slots.col x.screen.keyboard.col > x.status.delLimit.toUInt32.toInt32 ||
    withCursor slots.row x.screen.keyboard.row > x.status.shellRow.toUInt32.toInt32

/-- `buf[len - 1]`. -/
def StringN.lastChar (below : Option UInt8) (str : StringN) : Except Fault UInt8 :=
  match str.chars.getLast?.or below with
  | some c => .ok c
  | none => .error .outOfBounds

/-- `buf[len - 1] = '\0'; if (len > 0) len--;` -/
def StringN.removeLast (str : StringN) : Except Fault StringN :=
  if str.len = 0 then .error .outOfBounds else .ok ⟨str.chars.dropLast⟩

/-- A pass of the loop for backspaces, and the new last character. -/
def erasePass (slots : Slots) (x : Typing) : Except Fault (Typing × UInt8) := do
  let screen ← putchar '\x08'.toUInt8 x.screen
  let shellInput ← x.shellInput.removeLast
  let c ← shellInput.lastChar slots.below
  return ({ x with screen := screen, shellInput := shellInput }, c)

/-- With Ctrl held the loop goes on to the space in front of the word. -/
def goesOn (pressCtrl : Bool) (slots : Slots) (x : Typing) (c : UInt8) : Bool :=
  c ≠ ' '.toUInt8 && beyondLimit slots x && pressCtrl

/-- Every pass takes a character away or ends the run, so `fuel` never runs out. -/
def eraseLoop (pressCtrl : Bool) (slots : Slots) : ℕ → Typing → Except Fault Typing
  | 0, _ => .error .diverges
  | fuel + 1, x => do
    let (x, c) ← erasePass slots x
    if goesOn pressCtrl slots x c then eraseLoop pressCtrl slots fuel x else return x

/-- The branch of `'\b'`. -/
def backspaceKey (pressCtrl : Bool) (slots : Slots) (x : Typing) : Except Fault Typing :=
  if beyondLimit slots x then do
    let _ ← x.shellInput.lastChar slots.below
    eraseLoop pressCtrl slots (x.shellInput.len + 1) x
  else return x

/-- The branch of any other character. -/
def charKey (c : UInt8) (x : Typing) : Except Fault Typing := do
  let screen ← putchar c x.screen
  let shellInput ← x.shellInput.appendchar c
  return { x with screen := screen, shellInput := shellInput }

/-- The keys that are typed into a command line. -/
inductive Key where
  | char (c : {c : UInt8 // 0x20 ≤ c ∧ c < 0x7F})
  | backspace

structure Press where
  key : Key
  slots : Slots
  below : slots.below.isSome

/-- One turn of the main loop, with Ctrl released. -/
def Press.type (press : Press) (x : Typing) : Except Fault Typing :=
  match press.key with
  | .char c => charKey c x
  | .backspace => backspaceKey false press.slots x

def typeStep (y : Except Fault Typing) (press : Press) : Except Fault Typing := y.bind press.type

/-- The cursor has gone back by one place, which is blank; no other cell differs. -/
structure Erased (w : Window) (t t' : Screen) : Prop where
  cursor : w.cursorIndex t' + 1 = w.cursorIndex t
  cell : ∀ r c, c < 80 → t'.cell r c =
    if r = t'.keyboard.row.toNat ∧ c = t'.keyboard.col.toNat then blankCell else t.cell r c

/-- The key has done what it is for: the window shows the input from `start` on, and a backspace
has taken away its last character, if there is one. -/
structure Served (w : Window) (start : ℕ) (key : Key) (x x' : Typing) : Prop where
  shown : w.textFrom start x'.screen = x'.shellInput.chars
  erased : key = .backspace → x.shellInput.len ≠ 0 →
    Erased w x.screen x'.screen ∧ x'.shellInput.chars = x.shellInput.chars.dropLast
  idle : key = .backspace → x.shellInput.len = 0 →
    x'.screen = x.screen ∧ x'.shellInput = x.shellInput

def Serves (w : Window) (start : ℕ) (y : Except Fault Typing) (press : Press) : Prop :=
  ∃ x x', y = .ok x ∧ press.type x = .ok x' ∧ Served w start press.key x x'

/-- A character is not typed into the last cell of the window; a backspace finds the cursor beyond
the limit exactly when there is a character to take away, and then not at the left border. -/
structure Manageable (w : Window) (press : Press) (x : Typing) : Prop where
  char : press.key ≠ .backspace → x.shellInput.len < 256 ∧
    ¬(x.screen.keyboard.row.toNat = w.down ∧ x.screen.keyboard.col.toNat = w.right)
  limit : press.key = .backspace → (beyondLimit press.slots x ↔ x.shellInput.len ≠ 0)
  border : press.key = .backspace → x.shellInput.len ≠ 0 →
    x.screen.keyboard.col.toNat ≠ w.left

def Manages (w : Window) (y : Except Fault Typing) (press : Press) : Prop :=
  ∃ x, y = .ok x ∧ Manageable w press x

/-- What the shell and the kernel know while they agree: the input fills the places from `start`
to the cursor, and rows that the input has filled remember the right border. -/
structure Typed (w : Window) (start : ℕ) (x : Typing) : Prop where
  holds : w.Holds x.screen.keyboard
  cursor : w.cursorIndex x.screen = start + x.shellInput.len
  shown : w.textFrom start x.screen = x.shellInput.chars
  filled : ∀ r : Fin 25, start ≤ w.index r w.right → w.up ≤ r → r < x.screen.keyboard.row.toNat →
    (x.screen.keyboard.lastNonSpaceCol r).toNat = w.right

section Keys
variable {w : Window} {start : ℕ} {x x' : Typing} {t : Screen}

theorem putchar_eq {c : UInt8} (hc : c ≠ 0) : putchar c t =
    (putChar 0x7 0 c t).map fun t => framebufferSetCursor t.keyboard.row t.keyboard.col t := by
  have hcount : (⟨0, 1, 0x7, 0⟩ : SyscallPutsArgs).count.toNat = 0 + 1 := rfl
  rw [putchar, Terminal.puts, hcount, putsLoop, if_neg hc]
  dsimp only
  cases putChar 0x7 0 c t <;> rfl

/-- Nothing but the hardware cursor is added to what the character does. -/
theorem putchar_ok {c : UInt8} {t' : Screen} (hc : c ≠ 0) (h : putChar 0x7 0 c t = .ok t') :
    ∃ t'', putchar c t = .ok t'' ∧ t''.keyboard = t'.keyboard ∧ t''.framebuffer = t'.framebuffer := by
  rw [putchar_eq hc, h]
  exact ⟨_, rfl, rfl, rfl⟩

theorem putchar_printable (h : w.Holds t.keyboard) {c : UInt8} (hc : 0x20 ≤ c) :
    ∃ t', putchar c t = .ok t' ∧ w.Limits t'.keyboard ∧
      (t'.keyboard.row.toNat, t'.keyboard.col.toNat) =
        w.next t.keyboard.row.toNat t.keyboard.col.toNat ∧
      (∀ r : Fin 25, t'.keyboard.lastNonSpaceCol r =
        if r.val = t.keyboard.row.toNat then t.keyboard.col else t.keyboard.lastNonSpaceCol r) ∧
      ∀ r c', c' < 80 → t'.cell r c' =
        if r = t.keyboard.row.toNat ∧ c' = t.keyboard.col.toNat then ⟨c, 0x07⟩ else t.cell r c' := by
  have hne : ∀ d : UInt8, d < 0x20 → c ≠ d := by
    rintro d hd rfl
    exact absurd hc (UInt8.not_le.mpr hd)
  obtain ⟨t', hput, hlimits, hnext, hlast, hcell⟩ := putPlain_spec h c 0x07 0x00
  have hchar : putChar 0x7 0 c t = .ok t' := by
    rw [putChar, if_neg (hne _ (by decide)), if_neg (hne _ (by decide)), if_neg (hne _ (by decide))]
    exact hput
  obtain ⟨t'', hputchar, hkeyboard, hframe⟩ := putchar_ok (hne 0 (by decide)) hchar
  refine ⟨t'', hputchar, ?_, ?_, ?_, ?_⟩
  · rwa [hkeyboard]
  · rwa [hkeyboard]
  · rwa [hkeyboard]
  · intro r c' hc'
    rw [Screen.cell, hframe]
    exact hcell r c' hc'

theorem putchar_erase (h : w.Holds t.keyboard) (hcol : w.left < t.keyboard.col.toNat) :
    ∃ t', putchar '\x08'.toUInt8 t = .ok t' ∧ w.Holds t'.keyboard ∧ Erased w t t' ∧
      t'.keyboard.row = t.keyboard.row ∧
      t'.keyboard.lastNonSpaceCol = t.keyboard.lastNonSpaceCol := by
  obtain ⟨t', hput, hlimits, hrow, hcol', hlast, hcell⟩ := putBackspace_erase h hcol
  obtain ⟨t'', hputchar, hkeyboard, hframe⟩ :=
    @putchar_ok t '\x08'.toUInt8 t' (by decide) hput
  obtain ⟨hrows, hleft, hright⟩ := h.cursor
  refine ⟨t'', hputchar, ?_, ⟨?_, ?_⟩, ?_, ?_⟩
  · rw [hkeyboard]
    refine ⟨hlimits, ?_, ?_⟩
    · rwa [hrow]
    · rw [hcol']
      exact ⟨by omega, by omega⟩
  · rw [Window.cursorIndex, Window.cursorIndex, hkeyboard, hrow, hcol', Window.index, Window.index]
    omega
  · intro r c hc
    rw [Screen.cell, hframe, hkeyboard, hrow, hcol']
    exact hcell r c hc
  · rw [hkeyboard, hrow]
  · rw [hkeyboard, hlast]

/-- Across a filled row the cursor stays at the same place. -/
theorem putchar_wrap (h : w.Holds t.keyboard) (hcol : t.keyboard.col.toNat = w.left) {r : Fin 25}
    (hr : r.val + 1 = t.keyboard.row.toNat) (hup : w.up ≤ r)
    (hfilled : (t.keyboard.lastNonSpaceCol r).toNat = w.right) :
    ∃ t', putchar '\x08'.toUInt8 t = .ok t' ∧ w.cursorIndex t' = w.cursorIndex t := by
  obtain ⟨t', hput, -, hrow, hcol', -, -⟩ := putBackspace_wrap h hcol hr hup
  obtain ⟨t'', hputchar, hkeyboard, -⟩ := @putchar_ok t '\x08'.toUInt8 t' (by decide) hput
  have hright := w.right_lt
  refine ⟨t'', hputchar, ?_⟩
  rw [Window.cursorIndex, Window.cursorIndex, hkeyboard, hrow, hcol', toNat_succ (by omega), hfilled,
    Window.index_right hup, hr, hcol]

/-- A printable character goes to the end of the input and to the cell of the cursor. -/
theorem charKey_typed (h : Typed w start x) {c : UInt8} (hc : 0x20 ≤ c)
    (hlen : x.shellInput.len < 256) : ∃ x', charKey c x = .ok x' ∧
      x'.shellInput.chars = x.shellInput.chars ++ [c] ∧
      (x'.screen.keyboard.row.toNat, x'.screen.keyboard.col.toNat) =
        w.next x.screen.keyboard.row.toNat x.screen.keyboard.col.toNat ∧
      (¬(x.screen.keyboard.row.toNat = w.down ∧ x.screen.keyboard.col.toNat = w.right) →
        Typed w start x') := by
  have hin := h.holds.cursor
  obtain ⟨t', hputchar, hlimits, hnext, hlast, hcell⟩ := putchar_printable h.holds hc
  refine ⟨{ x with screen := t', shellInput := ⟨x.shellInput.chars ++ [c]⟩ }, ?_, rfl, hnext, ?_⟩
  · rw [charKey, hputchar, StringN.appendchar, if_pos hlen]
    rfl
  · intro hcorner
    have hcontains := Window.contains_next hin
    have hindex := Window.index_next hin hcorner
    rw [← hnext] at hcontains hindex
    have hcursor : w.cursorIndex t' = start + (x.shellInput.len + 1) := by
      rw [Window.cursorIndex, hindex, ← Nat.add_assoc, ← h.cursor]
      rfl
    have hcellAt : ∀ i, w.cellAt t' i =
        if i = w.cursorIndex x.screen then ⟨c, 0x07⟩ else w.cellAt x.screen i := by
      intro i
      rw [Window.cellAt, hcell _ _ (Window.col_lt i)]
      simp only [Window.eq_index_iff hin]
      rfl
    refine ⟨⟨hlimits, hcontains⟩, ?_, ?_, ?_⟩
    · rw [StringN.len_mk, List.length_append, List.length_singleton]
      exact hcursor
    · rw [Window.textFrom, hcursor, Nat.add_sub_cancel_left, List.range'_concat, List.map_append,
        ← h.shown, Window.textFrom, h.cursor, Nat.add_sub_cancel_left]
      congr 1
      · apply List.map_congr_left
        intro i hi
        rw [List.mem_range'_1] at hi
        rw [hcellAt, if_neg (by have h := h.cursor; omega)]
      · rw [List.map_singleton, hcellAt, if_pos (by have h := h.cursor; omega)]
    · intro r hstart hup hlt
      rw [Window.next, if_neg hcorner] at hnext
      dsimp only at hlt
      rw [hlast]
      split_ifs with hrow
      · -- the row is left behind when the character has filled it
        split_ifs at hnext with hborder
        · exact hborder
        · have hrow' := congrArg Prod.fst hnext
          dsimp only at hrow'
          omega
      · have hrow' := congrArg Prod.fst hnext
        apply h.filled r hstart hup
        split_ifs at hrow' <;> dsimp only at hrow' <;> omega

theorem lastChar_ok (press : Press) (str : StringN) : ∃ c, str.lastChar press.slots.below = .ok c := by
  obtain ⟨b, hb⟩ := Option.isSome_iff_exists.mp press.below
  rw [StringN.lastChar, hb]
  cases str.chars.getLast? with
  | none => exact ⟨b, rfl⟩
  | some c => exact ⟨c, rfl⟩

theorem backspaceKey_within {slots : Slots} (h : beyondLimit slots x = false) (pressCtrl : Bool) :
    backspaceKey pressCtrl slots x = .ok x := by
  rw [backspaceKey, h]
  rfl

/-- One pass, as Ctrl is not held. -/
theorem backspaceKey_single (press : Press) (hbeyond : beyondLimit press.slots x = true)
    (hlen : x.shellInput.len ≠ 0) (hput : putchar '\x08'.toUInt8 x.screen = .ok t) :
    backspaceKey false press.slots x =
      .ok { x with screen := t, shellInput := ⟨x.shellInput.chars.dropLast⟩ } := by
  obtain ⟨c, hc⟩ := lastChar_ok press x.shellInput
  obtain ⟨c', hc'⟩ := lastChar_ok press ⟨x.shellInput.chars.dropLast⟩
  rw [backspaceKey, if_pos hbeyond, hc, eraseLoop, erasePass, hput, StringN.removeLast, if_neg hlen]
  simp [bind, Except.bind, pure, Except.pure, hc', goesOn]

theorem backspaceKey_empty {slots : Slots} (hbeyond : beyondLimit slots x = true)
    (hlen : x.shellInput.len = 0) (pressCtrl : Bool) :
    backspaceKey pressCtrl slots x ≠ .ok x' := by
  intro hok
  rw [backspaceKey, if_pos hbeyond, eraseLoop, erasePass, StringN.removeLast, if_pos hlen] at hok
  cases hlast : x.shellInput.lastChar slots.below with
  | error f =>
    rw [hlast] at hok
    cases hok
  | ok c =>
    rw [hlast] at hok
    cases hput : putchar '\x08'.toUInt8 x.screen with
    | error f =>
      rw [hput] at hok
      cases hok
    | ok t =>
      rw [hput] at hok
      cases hok

/-- A backspace takes the last character off the screen and off the input. -/
theorem backspaceKey_typed (h : Typed w start x) (press : Press)
    (hbeyond : beyondLimit press.slots x = true) (hlen : x.shellInput.len ≠ 0)
    (hcol : x.screen.keyboard.col.toNat ≠ w.left) :
    ∃ x', backspaceKey false press.slots x = .ok x' ∧ Typed w start x' ∧
      Erased w x.screen x'.screen ∧ x'.shellInput.chars = x.shellInput.chars.dropLast := by
  have hleft : w.left < x.screen.keyboard.col.toNat :=
    lt_of_le_of_ne h.holds.cursor.2.1 hcol.symm
  obtain ⟨t', hput, hholds, herased, hrow, hlast⟩ := putchar_erase h.holds hleft
  refine ⟨_, backspaceKey_single press hbeyond hlen hput, ?_, herased, rfl⟩
  obtain ⟨n, hn⟩ := Nat.exists_eq_succ_of_ne_zero hlen
  have hcursor := herased.cursor
  rw [h.cursor, hn, Nat.succ_eq_add_one, ← Nat.add_assoc, Nat.add_right_cancel_iff] at hcursor
  have htext : x.shellInput.chars.dropLast =
      (List.range' start n).map fun i => (w.cellAt x.screen i).char := by
    rw [← h.shown, Window.textFrom, h.cursor, Nat.add_sub_cancel_left, hn, List.range'_concat,
      List.map_append, List.map_singleton, List.dropLast_concat]
  have hlength : x.shellInput.chars.dropLast.length = n := by
    rw [htext, List.length_map, List.length_range']
  refine ⟨hholds, ?_, ?_, ?_⟩
  · rw [StringN.len_mk, hlength]
    exact hcursor
  · rw [Window.textFrom_congr hcursor, htext]
    · intro i hstart hi
      rw [Window.cellAt, herased.cell _ _ (Window.col_lt i), if_neg]
      · rfl
      · rw [Window.eq_index_iff hholds.cursor]
        intro hcell
        have hcell' : i = w.cursorIndex t' := hcell
        omega
  · intro r hstart hup hlt
    dsimp only at hlt ⊢
    rw [hlast]
    rw [hrow] at hlt
    exact h.filled r hstart hup hlt

/-- A manageable key is served, and the agreement is kept. -/
theorem Typed.type (h : Typed w start x) {press : Press} (hm : Manageable w press x) :
    ∃ x', press.type x = .ok x' ∧ Typed w start x' ∧ Served w start press.key x x' := by
  cases hkey : press.key with
  | char c =>
    obtain ⟨hlen, hcorner⟩ := hm.char (by simp [hkey])
    obtain ⟨x', htype, -, -, htyped⟩ := charKey_typed h c.2.1 hlen
    refine ⟨x', ?_, htyped hcorner, (htyped hcorner).shown, ?_, ?_⟩
    · rw [Press.type, hkey]
      exact htype
    · exact fun hback => nomatch hback
    · exact fun hback => nomatch hback
  | backspace =>
    have htype : press.type x = backspaceKey false press.slots x := by rw [Press.type, hkey]
    have hlimit := hm.limit hkey
    rw [htype]
    by_cases hlen : x.shellInput.len = 0
    · have hwithin : beyondLimit press.slots x = false := by
        rw [← Bool.not_eq_true, hlimit]
        exact not_not_intro hlen
      exact ⟨x, backspaceKey_within hwithin false, h, h.shown, fun _ hne => absurd hlen hne,
        fun _ _ => ⟨rfl, rfl⟩⟩
    · obtain ⟨x', hok, htyped, herased, hinput⟩ :=
        backspaceKey_typed h press (hlimit.mpr hlen) hlen (hm.border hkey hlen)
      exact ⟨x', hok, htyped, htyped.shown, fun _ _ => ⟨herased, hinput⟩,
        fun _ hzero => absurd hzero hlen⟩

theorem Typed.manageable (h : Typed w start x) {press : Press} (htype : press.type x = .ok x')
    (hs : Served w start press.key x x') : Manageable w press x := by
  have hin := h.holds.cursor
  refine ⟨?_, ?_, ?_⟩
  · intro hkey
    cases hkey' : press.key with
    | backspace => exact absurd hkey' hkey
    | char c =>
      rw [Press.type, hkey'] at htype
      have hlen : x.shellInput.len < 256 := by
        by_contra hge
        obtain ⟨t', hputchar, -⟩ := putchar_printable h.holds c.2.1
        simp only [charKey, hputchar, StringN.appendchar, if_neg hge] at htype
        cases htype
      refine ⟨hlen, ?_⟩
      -- from the last cell the cursor does not go on, but the input does
      rintro ⟨hrow, hcol⟩
      obtain ⟨x'', htype', hinput, hnext, -⟩ := charKey_typed h c.2.1 hlen
      obtain rfl : x' = x'' := Except.ok.inj (htype.symm.trans htype')
      rw [Window.next, if_pos ⟨hrow, hcol⟩, Prod.mk.injEq] at hnext
      have hlength := congrArg List.length hs.shown
      rw [Window.textFrom_length, Window.cursorIndex, hnext.1, hnext.2, ← Window.cursorIndex,
        h.cursor, hinput, List.length_append, List.length_singleton, StringN.len] at hlength
      omega
  · intro hkey
    rw [Press.type, hkey] at htype
    constructor
    · intro hbeyond hlen
      exact backspaceKey_empty hbeyond hlen false htype
    · intro hlen
      by_contra hnot
      rw [Bool.not_eq_true] at hnot
      obtain rfl : x = x' := Except.ok.inj ((backspaceKey_within hnot false).symm.trans htype)
      have hcursor := (hs.erased hkey hlen).1.cursor
      omega
  · intro hkey hlen hcol
    obtain ⟨herased, -⟩ := hs.erased hkey hlen
    rw [Press.type, hkey] at htype
    have hbeyond : beyondLimit press.slots x = true := by
      by_contra hnot
      rw [Bool.not_eq_true] at hnot
      obtain rfl : x = x' := Except.ok.inj ((backspaceKey_within hnot false).symm.trans htype)
      have hcursor := herased.cursor
      omega
    -- the row above is filled, so the cursor comes back to where it was
    have hcursor := h.cursor
    rw [Window.cursorIndex, Window.index, hcol, Nat.sub_self, Nat.add_zero] at hcursor
    have hrow : x.screen.keyboard.row.toNat ≠ w.up := by
      intro hrow
      rw [hrow, Nat.sub_self, Nat.zero_mul] at hcursor
      omega
    have hrow_lt := h.holds.row_lt
    obtain ⟨⟨hup, -⟩, -⟩ := hin
    let r : Fin 25 := ⟨x.screen.keyboard.row.toNat - 1, by omega⟩
    have hr : r.val + 1 = x.screen.keyboard.row.toNat := Nat.sub_add_cancel (by omega)
    have hwidth := w.width_pos
    have hlast : w.index r w.right + 1 = (r + 1 - w.up) * w.width :=
      Window.index_right_succ (by omega)
    have hstart : start ≤ w.index r w.right := by
      rw [hr, hcursor] at hlast
      omega
    obtain ⟨t', hput, hsame⟩ := putchar_wrap h.holds hcol hr (by omega)
      (h.filled r hstart (by omega) (by omega))
    have hok := backspaceKey_single press hbeyond hlen hput
    obtain rfl := Except.ok.inj (htype.symm.trans hok)
    have hback := herased.cursor
    dsimp only at hback
    omega

/-- From a fresh prompt on, every key serves its purpose exactly when every key is manageable in
the state in which it is typed. -/
theorem typing_served_iff (hholds : w.Holds x.screen.keyboard) (hempty : x.shellInput.len = 0)
    (presses : List Press) :
    Along typeStep (Serves w (w.cursorIndex x.screen)) presses (.ok x) ↔
      Along typeStep (Manages w) presses (.ok x) := by
  have hstart : Typed w (w.cursorIndex x.screen) x := by
    have hchars : x.shellInput.chars = [] := List.length_eq_zero_iff.mp hempty
    refine ⟨hholds, ?_, ?_, ?_⟩
    · rw [hempty, Nat.add_zero]
    · rw [Window.textFrom, Nat.sub_self, hchars]
      rfl
    · -- no row between the prompt and the cursor has been filled yet
      intro r hle hup hlt
      have hrows := Nat.mul_le_mul_right w.width (Nat.sub_le_sub_right (Nat.succ_le_of_lt hlt) w.up)
      have hlast := Window.index_right_succ (w := w) hup
      rw [Nat.succ_eq_add_one, ← hlast] at hrows
      rw [Window.cursorIndex, Window.index] at hle
      omega
  apply along_iff (I := fun y => ∃ x', y = .ok x' ∧ Typed w (w.cursorIndex x.screen) x')
  · exact ⟨x, rfl, hstart⟩
  · rintro y press ⟨x', rfl, htyped⟩
    constructor
    · rintro ⟨x₁, x'', heq, htype, hserved⟩
      obtain rfl := Except.ok.inj heq
      exact ⟨x', rfl, htyped.manageable htype hserved⟩
    · rintro ⟨x₁, heq, hm⟩
      obtain rfl := Except.ok.inj heq
      obtain ⟨x'', htype, -, hserved⟩ := htyped.type hm
      exact ⟨x', x'', rfl, htype, hserved⟩
  · rintro y press ⟨x', rfl, htyped⟩ ⟨x₁, heq, hm⟩
    obtain rfl := Except.ok.inj heq
    obtain ⟨x'', htype, htyped', -⟩ := htyped.type hm
    exact ⟨x'', htype, htyped'⟩

end Keys

def Slots.Clean (slots : Slots) : Prop :=
  slots.col &&& 0xFFFFFF00 = 0 ∧ slots.row &&& 0xFFFFFF00 = 0

theorem toInt_toInt32 (a : UInt8) : a.toUInt32.toInt32.toInt = a.toNat := by
  have hall : ∀ n : Fin 256, (UInt8.ofNat n).toUInt32.toInt32.toInt = n.val := by decide +kernel
  have hbyte := hall ⟨a.toNat, a.toNat_lt⟩
  rwa [UInt8.ofNat_toNat] at hbyte

theorem withCursor_gt_iff {slot : UInt32} (h : slot &&& 0xFFFFFF00 = 0) (a b : UInt8) :
    withCursor slot a > b.toUInt32.toInt32 ↔ b.toNat < a.toNat := by
  rw [withCursor, h, UInt32.zero_or, gt_iff_lt, Int32.lt_iff_toInt_lt, toInt_toInt32, toInt_toInt32,
    Nat.cast_lt]

/-- On a clean stack the guard of a prompt tells whether there is a character to take away. -/
theorem beyondLimit_iff {w : Window} {x : Typing} {slots : Slots} (hclean : slots.Clean)
    (hprompt : w.Contains x.status.shellRow.toNat x.status.delLimit.toNat)
    (h : Typed w (w.index x.status.shellRow.toNat x.status.delLimit.toNat) x) :
    beyondLimit slots x ↔ x.shellInput.len ≠ 0 := by
  have hcursor := h.cursor
  have hin := h.holds.cursor
  have hguard : beyondLimit slots x ↔ x.status.delLimit.toNat < x.screen.keyboard.col.toNat ∨
      x.status.shellRow.toNat < x.screen.keyboard.row.toNat := by
    rw [beyondLimit, Bool.or_eq_true, decide_eq_true_iff, decide_eq_true_iff,
      withCursor_gt_iff hclean.1, withCursor_gt_iff hclean.2]
  rw [hguard]
  constructor
  · rintro hbeyond hlen
    rw [hlen, Nat.add_zero] at hcursor
    -- the cursor is at the end of the prompt
    obtain ⟨hrow, hcol⟩ := (Window.eq_index_iff hprompt).mpr rfl
    obtain ⟨hrow', hcol'⟩ := (Window.eq_index_iff hin).mpr rfl
    rw [Window.cursorIndex] at hcursor
    rw [hcursor, hrow] at hrow'
    rw [hcursor, hcol] at hcol'
    omega
  · intro hlen
    by_contra hnot
    rw [not_or, Nat.not_lt, Nat.not_lt] at hnot
    obtain ⟨hcol, hrow⟩ := hnot
    have hrows := Nat.mul_le_mul_right w.width (Nat.sub_le_sub_right hrow w.up)
    rw [Window.cursorIndex, Window.index, Window.index] at hcursor
    omega

def promptAt (row col : UInt8) : Typing where
  screen := shellScreen row.toUInt32 col.toUInt32
  status := ⟨true, col, row⟩
  shellInput := .create

def Key.press (key : Key) : Press := ⟨key, ⟨0, 0, some 0⟩, rfl⟩

def letterA : Key := .char ⟨0x61, Nat.le_of_ble_eq_true rfl, Nat.le_of_ble_eq_true rfl⟩

theorem typing_served_iff_prompt : Along typeStep (Serves shellWindow (shellWindow.index 2 28))
      [letterA.press, letterA.press, Key.backspace.press] (.ok (promptAt 2 28)) ↔
    Along typeStep (Manages shellWindow) [letterA.press, letterA.press, Key.backspace.press]
      (.ok (promptAt 2 28)) :=
  @typing_served_iff shellWindow (promptAt 2 28) ⟨⟨rfl, rfl, rfl, rfl⟩, by decide⟩ rfl
    [letterA.press, letterA.press, Key.backspace.press]

/-- A character in the last column is taken off the input alone: the cursor goes back across the
border, and the character stays on the screen. -/
theorem backspace_leaves_character :
    shellWindow.Holds (promptAt 2 77).screen.keyboard ∧ (promptAt 2 77).shellInput.len = 0 ∧
    ¬Along typeStep (Serves shellWindow (shellWindow.cursorIndex (promptAt 2 77).screen))
      [letterA.press, Key.backspace.press] (.ok (promptAt 2 77)) := by
  refine ⟨⟨⟨rfl, rfl, rfl, rfl⟩, by decide⟩, rfl, ?_⟩
  rintro ⟨-, ⟨x, x', hx, hx', hserved⟩, -⟩
  have hfirst : (typeStep (.ok (promptAt 2 77)) letterA.press).map
      (fun x => (shellWindow.cursorIndex x.screen, x.shellInput.len)) = .ok (76, 1) := by rfl
  have hsecond : (typeStep (typeStep (.ok (promptAt 2 77)) letterA.press) Key.backspace.press).map
      (fun x => shellWindow.cursorIndex x.screen) = .ok 76 := by rfl
  rw [hx] at hfirst hsecond
  have hsecond' : (Key.backspace.press.type x).map (fun x => shellWindow.cursorIndex x.screen) =
      .ok 76 := hsecond
  rw [hx'] at hsecond'
  obtain ⟨hindex, hlen⟩ := Prod.mk.inj (Except.ok.inj hfirst)
  have hindex' : shellWindow.cursorIndex x'.screen = 76 := Except.ok.inj hsecond'
  have herased := (hserved.erased rfl (by rw [hlen]; decide)).1.cursor
  rw [hindex, hindex'] at herased
  exact absurd herased (by decide)

end Os2024.Shell
