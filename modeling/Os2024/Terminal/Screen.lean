import Os2024.Machine
import Os2024.Terminal.Keyboard

/-! # The screen: framebuffer.c and the output calls of interrupt.c

The text memory has two bytes for each cell. The cursor lives in the state of the
keyboard driver; the video card is told where it is at the end of each call.
-/

namespace Os2024.Terminal

/-- The bytes from `FRAMEBUFFER_MEMORY_OFFSET` on. -/
abbrev Framebuffer := ℕ → UInt8

structure Screen where
  framebuffer : Framebuffer
  keyboard : KeyboardDriverState
  cursorLocation : UInt16

def framebufferWrite (row col c fg bg : UInt8) (fb : Framebuffer) : Framebuffer :=
  if row ≥ 25 ∨ col ≥ 80 then fb else
  let offset := (row.toNat * 80 + col.toNat) * 2
  Function.update (Function.update fb offset c) (offset + 1) (bg <<< 4 ||| fg &&& 0x0F)

def framebufferSetCursor (r c : UInt8) (t : Screen) : Screen :=
  { t with cursorLocation := r.toUInt16 * 80 + c.toUInt16 }

/-- `for (int k = first; k < last; k++)`. -/
def intRange (first last : ℕ) : List ℕ := List.range' first (last - first)

/-- The body of the scrolling loop: the cell below is read, its colour byte split and joined. -/
def scrollCell (i j : ℕ) (fb : Framebuffer) : Framebuffer :=
  let c := fb (((i + 1) * 80 + j) * 2)
  let fg := fb (((i + 1) * 80 + j) * 2 + 1) &&& 0x0F
  let bg := fb (((i + 1) * 80 + j) * 2 + 1) >>> 4
  framebufferWrite (.ofNat i) (.ofNat j) c fg bg fb

def scrollUp (k : KeyboardDriverState) (fb : Framebuffer) : Framebuffer :=
  let columns := intRange k.leftLimit.toNat (k.rightLimit.toNat + 1)
  let fb := (intRange k.upLimit.toNat k.downLimit.toNat).foldl
    (fun fb i => columns.foldl (fun fb j => scrollCell i j fb) fb) fb
  columns.foldl (fun fb j => framebufferWrite k.downLimit (.ofNat j) 0x20 0x07 0x00 fb) fb

/-- `'\n'`. -/
def putNewline (t : Screen) : Screen :=
  let k := t.keyboard
  if k.row = k.downLimit then
    { t with
      framebuffer := scrollUp k t.framebuffer
      keyboard := { k with col := k.leftLimit } }
  else { t with keyboard := { k with row := k.row + 1, col := k.leftLimit } }

/-- `'\b'`. At the left border nothing is erased. -/
def putBackspace (t : Screen) : Except Fault Screen :=
  let k := t.keyboard
  if k.col > k.leftLimit then
    let col := k.col - 1
    .ok { t with
      framebuffer := framebufferWrite k.row col 0x20 0x07 0x00 t.framebuffer
      keyboard := { k with col := col } }
  else if k.row > k.upLimit then
    let row := k.row - 1
    if h : row.toNat < 25 then
      .ok { t with keyboard := { k with row := row, col := k.lastNonSpaceCol ⟨row.toNat, h⟩ + 1 } }
    else .error .outOfBounds
  else .ok t

/-- `'\t'`. -/
def putTab (t : Screen) : Screen :=
  { t with keyboard := { t.keyboard with col := (t.keyboard.col + 4) &&& ~~~3 } }

/-- Any other character. In the last cell of the window the cursor stays where it is. -/
def putPlain (c fg bg : UInt8) (t : Screen) : Except Fault Screen :=
  let k := t.keyboard
  if h : k.row.toNat < 25 then
    let framebuffer := framebufferWrite k.row k.col c fg bg t.framebuffer
    let k := { k with lastNonSpaceCol := Function.update k.lastNonSpaceCol ⟨k.row.toNat, h⟩ k.col }
    let k := if k.row = k.downLimit ∧ k.col = k.rightLimit then k
      else if k.col = k.rightLimit then { k with row := k.row + 1, col := k.leftLimit }
      else { k with col := k.col + 1 }
    .ok { t with framebuffer := framebuffer, keyboard := k }
  else .error .outOfBounds

def putChar (fg bg : UInt32) (c : UInt8) (t : Screen) : Except Fault Screen :=
  if c = '\n'.toUInt8 then .ok (putNewline t)
  else if c = '\x08'.toUInt8 then putBackspace t
  else if c = '\t'.toUInt8 then .ok (putTab t)
  else putPlain c fg.toUInt8 bg.toUInt8 t

structure SyscallPutsArgs where
  buf : UInt32
  count : UInt32
  fgColor : UInt32
  bgColor : UInt32

/-- The loop of `puts`, with its counter first. -/
def putsLoop (mem : Memory) (fg bg : UInt32) : ℕ → UInt32 → Screen → Except Fault Screen
  | 0, _, t => .ok t
  | count + 1, buf, t =>
    if mem buf = 0 then .ok t else
    match putChar fg bg (mem buf) t with
    | .error f => .error f
    | .ok t => putsLoop mem fg bg count (buf + 1) t

def puts (mem : Memory) (args : SyscallPutsArgs) (t : Screen) : Except Fault Screen :=
  match putsLoop mem args.fgColor args.bgColor args.count.toNat args.buf t with
  | .error f => .error f
  | .ok t => .ok (framebufferSetCursor t.keyboard.row t.keyboard.col t)

/-- `SYSCALL_SET_KEYBOARD_BORDERS`. -/
def setKeyboardBorders (up down left right : UInt8) (t : Screen) : Screen :=
  { t with keyboard := { t.keyboard with
      upLimit := up
      downLimit := down
      leftLimit := left
      rightLimit := right } }

/-- `SYSCALL_CLEAR_SCREEN`, which leaves the cursor where it is. -/
def clearScreen (t : Screen) : Screen :=
  let k := t.keyboard
  { t with framebuffer := (intRange k.upLimit.toNat (k.downLimit.toNat + 1)).foldl (fun fb i =>
      (intRange k.leftLimit.toNat (k.rightLimit.toNat + 1)).foldl
        (fun fb j => framebufferWrite (.ofNat i) (.ofNat j) 0x00 0x07 0x00 fb) fb) t.framebuffer }

/-- `SYSCALL_SET_CURSOR`; only the low bytes of the registers arrive. -/
def setCursor (row col : UInt32) (t : Screen) : Screen :=
  let t := framebufferSetCursor row.toUInt8 col.toUInt8 t
  { t with keyboard := { t.keyboard with row := row.toUInt8, col := col.toUInt8 } }

@[ext] structure Cell where
  char : UInt8
  attr : UInt8
  deriving DecidableEq

/-- The cell of a row and a column, which is meant for columns below 80. -/
def cellOf (fb : Framebuffer) (r c : ℕ) : Cell := ⟨fb ((r * 80 + c) * 2), fb ((r * 80 + c) * 2 + 1)⟩

def Screen.cell (t : Screen) (r c : ℕ) : Cell := cellOf t.framebuffer r c

/-- A space in the colours the kernel clears with. -/
def blankCell : Cell := ⟨0x20, 0x07⟩

theorem cellOf_framebufferWrite {row col ch fg bg : UInt8} {fb : Framebuffer}
    (hrow : row.toNat < 25) (hcol : col.toNat < 80) {r c : ℕ} (hc : c < 80) :
    cellOf (framebufferWrite row col ch fg bg fb) r c =
      if r = row.toNat ∧ c = col.toNat then ⟨ch, bg <<< 4 ||| fg &&& 0x0F⟩ else cellOf fb r c := by
  have hin : ¬(row ≥ 25 ∨ col ≥ 80) := by
    rw [ge_iff_le, ge_iff_le, UInt8.le_iff_toNat_le, UInt8.le_iff_toNat_le]
    have h25 : (25 : UInt8).toNat = 25 := rfl
    have h80 : (80 : UInt8).toNat = 80 := rfl
    omega
  rw [framebufferWrite, if_neg hin]
  split_ifs with hcell
  · obtain ⟨rfl, rfl⟩ := hcell
    simp [cellOf]
  · have hchar : (r * 80 + c) * 2 ≠ (row.toNat * 80 + col.toNat) * 2 := by omega
    have hother : (r * 80 + c) * 2 ≠ (row.toNat * 80 + col.toNat) * 2 + 1 := by omega
    have hother' : (r * 80 + c) * 2 + 1 ≠ (row.toNat * 80 + col.toNat) * 2 := by omega
    simp [cellOf, Function.update_of_ne, hchar, hother, hother']

/-- The colour byte survives being split and joined. -/
theorem attr_rejoin (attr : UInt8) : attr >>> 4 <<< 4 ||| (attr &&& 0x0F) &&& 0x0F = attr := by
  have hall : ∀ n : Fin 256, UInt8.ofNat n >>> 4 <<< 4 ||| (UInt8.ofNat n &&& 0x0F) &&& 0x0F =
      UInt8.ofNat n := by decide +kernel
  have hattr := hall ⟨attr.toNat, attr.toNat_lt⟩
  rwa [UInt8.ofNat_toNat] at hattr

end Os2024.Terminal
