import Mathlib.Data.List.DropRight
import Os2024.Terminal.Window

/-! # A scrolling page of text

Lines that are printed one after the other fill a cleared window from the top. Once
the window is full each new line pushes out the oldest one.
-/

namespace Os2024.Terminal
open Library.StepwiseRuns

/-- A character with its colours. -/
structure Glyph where
  char : UInt8
  fgColor : UInt32
  bgColor : UInt32
  deriving DecidableEq

/-- The colours fit the colour byte, and the character is printed as it is. -/
structure Glyph.Plain (g : Glyph) : Prop where
  newline : g.char ≠ '\n'.toUInt8
  back : g.char ≠ '\x08'.toUInt8
  tab : g.char ≠ '\t'.toUInt8
  fg : g.fgColor < 16
  bg : g.bgColor < 16

def Glyph.cell (g : Glyph) : Cell := ⟨g.char, .ofNat (g.bgColor.toNat * 16 + g.fgColor.toNat)⟩

/-- A line of text and the colours its newline is printed with. -/
structure Line where
  text : List Glyph
  fgColor : UInt32
  bgColor : UInt32

def Line.glyphs (line : Line) : List Glyph :=
  line.text ++ [⟨'\n'.toUInt8, line.fgColor, line.bgColor⟩]

/-- The text is made of plain characters and is shorter than the window is wide. -/
structure Line.Fits (line : Line) (w : Window) : Prop where
  plain : ∀ g ∈ line.text, g.Plain
  short : line.text.length < w.right - w.left + 1

/-- One `SYSCALL_PUTS`. -/
structure PutsCall where
  mem : Memory
  args : SyscallPutsArgs

def PutsCall.glyphs (call : PutsCall) : List Glyph :=
  (putsText call.mem call.args.count.toNat call.args.buf).map fun c =>
    ⟨c, call.args.fgColor, call.args.bgColor⟩

def putsCalls : List PutsCall → Screen → Except Fault Screen
  | [], t => .ok t
  | call :: calls, t =>
    match puts call.mem call.args t with
    | .error f => .error f
    | .ok t => putsCalls calls t

/-- A space or NUL in the colours of the cleared screen. -/
def Cell.Blank (cell : Cell) : Prop := (cell.char = 0x20 ∨ cell.char = 0x00) ∧ cell.attr = 0x07

/-- The cell shows the glyph, or nothing. -/
def Cell.Shows (cell : Cell) : Option Glyph → Prop
  | some g => cell = g.cell
  | none => cell.Blank

def glyphAt (lines : List (List Glyph)) (i j : ℕ) : Option Glyph :=
  lines[i]?.bind fun text => text[j]?

/-- The lines stand in the window from the top, left-aligned; the rest is blank. -/
def Window.Shows (w : Window) (lines : List (List Glyph)) (t : Screen) : Prop :=
  ∀ i j, w.Contains (w.up + i) (w.left + j) → (t.cell (w.up + i) (w.left + j)).Shows (glyphAt lines i j)

/-- The rows above the cursor, and the row of the cursor up to it. -/
structure Page where
  above : List (List Glyph)
  current : List Glyph

/-- A page that keeps `height` finished lines. -/
def Page.feed (height : ℕ) (p : Page) (g : Glyph) : Page :=
  if g.char = '\n'.toUInt8 then ⟨(p.above ++ [p.current]).rtake height, []⟩
  else ⟨p.above, p.current ++ [g]⟩

def Page.Room (width : ℕ) (p : Page) (g : Glyph) : Prop :=
  g.char = '\n'.toUInt8 ∨ g.Plain ∧ p.current.length < width

theorem rtake_append_rtake {α : Type*} (l l' : List α) (n : ℕ) :
    (l.rtake n ++ l').rtake n = (l ++ l').rtake n := by
  simp [List.rtake_eq_reverse_take_reverse, List.take_append, List.take_take]

section Page
variable {height width : ℕ} {p : Page}

theorem feed_text {text : List Glyph} (htext : ∀ g ∈ text, g.Plain)
    (hlength : p.current.length + text.length ≤ width) :
    text.foldl (Page.feed height) p = ⟨p.above, p.current ++ text⟩ ∧
      Along (Page.feed height) (Page.Room width) text p := by
  induction text generalizing p with
  | nil => simp
  | cons g text ih =>
    have hg := htext g List.mem_cons_self
    have hfeed : p.feed height g = ⟨p.above, p.current ++ [g]⟩ := if_neg hg.newline
    rw [List.length_cons] at hlength
    obtain ⟨hfold, halong⟩ := @ih ⟨p.above, p.current ++ [g]⟩
      (fun g' hg' => htext g' (List.mem_cons_of_mem g hg')) (by simp; omega)
    rw [List.foldl_cons, along_cons, hfeed, hfold]
    simp only [List.append_assoc, List.cons_append, List.nil_append, true_and]
    exact ⟨.inr ⟨hg, by omega⟩, halong⟩

/-- After whole lines the page holds the last of them. -/
theorem feed_lines {w : Window} {lines : List Line} (hlines : ∀ line ∈ lines, line.Fits w)
    (above : List (List Glyph)) :
    (lines.flatMap Line.glyphs).foldl (Page.feed height) ⟨above.rtake height, []⟩ =
        ⟨(above ++ lines.map Line.text).rtake height, []⟩ ∧
      Along (Page.feed height) (Page.Room (w.right - w.left)) (lines.flatMap Line.glyphs)
        ⟨above.rtake height, []⟩ := by
  induction lines generalizing above with
  | nil => simp
  | cons line lines ih =>
    have hline := hlines line List.mem_cons_self
    obtain ⟨hfold, halong⟩ := ih (fun line' h => hlines line' (List.mem_cons_of_mem line h))
      (above ++ [line.text])
    obtain ⟨htext, hroom⟩ := @feed_text height (w.right - w.left) ⟨above.rtake height, []⟩ line.text
      hline.plain (by have h := hline.short; simp; omega)
    have hnewline : Page.feed height ⟨above.rtake height, line.text⟩
        ⟨'\n'.toUInt8, line.fgColor, line.bgColor⟩ = ⟨(above ++ [line.text]).rtake height, []⟩ := by
      rw [Page.feed, if_pos rfl, rtake_append_rtake]
    rw [List.nil_append] at htext
    rw [List.flatMap_cons, List.foldl_append, along_append, Line.glyphs, List.foldl_append,
      along_append, htext, List.foldl_cons, List.foldl_nil, hnewline, hfold, List.map_cons,
      ← List.append_cons]
    exact ⟨rfl, ⟨hroom, .inl rfl, along_nil⟩, halong⟩

end Page

section Lookup
variable (lines : List (List Glyph)) (text : List Glyph) (g : Glyph) (i j : ℕ)

theorem glyphAt_nil_line : glyphAt (lines ++ [[]]) i j = glyphAt lines i j := by
  rw [glyphAt, glyphAt]
  rcases lt_trichotomy i lines.length with hi | hi | hi
  · rw [List.getElem?_append_left hi]
  · subst hi
    simp
  · rw [List.getElem?_eq_none (by simp; omega), List.getElem?_eq_none hi.le]

theorem glyphAt_append_glyph : glyphAt (lines ++ [text ++ [g]]) i j =
    if i = lines.length ∧ j = text.length then some g else glyphAt (lines ++ [text]) i j := by
  rw [glyphAt, glyphAt]
  rcases lt_trichotomy i lines.length with hi | hi | hi
  · rw [if_neg (fun h => hi.ne h.1), List.getElem?_append_left hi, List.getElem?_append_left hi]
  · subst hi
    rcases lt_trichotomy j text.length with hj | hj | hj
    · simp [hj.ne, List.getElem?_append_left hj]
    · simp [hj]
    · simp [hj.ne', List.getElem?_eq_none hj.le, hj]
  · rw [if_neg (fun h => hi.ne' h.1), List.getElem?_eq_none (by simp; omega),
      List.getElem?_eq_none (by simp; omega)]

theorem glyphAt_drop : glyphAt (lines.drop 1) i j = glyphAt lines (i + 1) j := by
  simp [glyphAt]

theorem glyphAt_eq_none (h : lines.length ≤ i) : glyphAt lines i j = none := by
  simp [glyphAt, List.getElem?_eq_none h]

end Lookup

theorem Glyph.Plain.cell_eq {g : Glyph} (h : g.Plain) :
    ⟨g.char, g.bgColor.toUInt8 <<< 4 ||| g.fgColor.toUInt8 &&& 0x0F⟩ = g.cell := by
  have hall : ∀ fg bg : Fin 16, (UInt32.ofNat bg).toUInt8 <<< 4 |||
      (UInt32.ofNat fg).toUInt8 &&& 0x0F = UInt8.ofNat (bg * 16 + fg) := by decide +kernel
  have hcolors := hall ⟨g.fgColor.toNat, UInt32.lt_iff_toNat_lt.mp h.fg⟩
    ⟨g.bgColor.toNat, UInt32.lt_iff_toNat_lt.mp h.bg⟩
  rw [UInt32.ofNat_toNat, UInt32.ofNat_toNat] at hcolors
  rw [hcolors]
  rfl

/-- The window shows the page; outside it is as it was in `t₀`. -/
structure Displays (w : Window) (p : Page) (t₀ t : Screen) : Prop where
  limits : w.Limits t.keyboard
  row : t.keyboard.row.toNat = w.up + p.above.length
  col : t.keyboard.col.toNat = w.left + p.current.length
  height : p.above.length ≤ w.down - w.up
  width : p.current.length ≤ w.right - w.left
  shows : w.Shows (p.above ++ [p.current]) t
  frame : ∀ r c, c < 80 → ¬w.Contains r c → t.cell r c = t₀.cell r c

section Displays
variable {w : Window} {p : Page} {g : Glyph} {t t₀ : Screen}

theorem Displays.holds (h : Displays w p t₀ t) : w.Holds t.keyboard := by
  have hrow := h.row
  have hcol := h.col
  have hheight := h.height
  have hwidth := h.width
  have hup := w.up_le
  have hleft := w.left_le
  exact ⟨h.limits, ⟨by omega, by omega⟩, by omega, by omega⟩

theorem Displays.confined (h : Displays w p t₀ t) : w.Confined t₀ t := ⟨h.holds, h.frame⟩

theorem Displays.plain (h : Displays w p t₀ t) (hg : g.Plain)
    (hroom : p.current.length < w.right - w.left) :
    ∃ t', putPlain g.char g.fgColor.toUInt8 g.bgColor.toUInt8 t = .ok t' ∧
      Displays w ⟨p.above, p.current ++ [g]⟩ t₀ t' := by
  obtain ⟨t', heq, hlimits, hnext, -, hcell⟩ :=
    putPlain_spec h.holds g.char g.fgColor.toUInt8 g.bgColor.toUInt8
  have hrow := h.row
  have hcol := h.col
  have hconfined := putPlain_confined h.confined g.char g.fgColor.toUInt8 g.bgColor.toUInt8
  rw [heq, Window.contained_ok] at hconfined
  have hborder : t.keyboard.col.toNat ≠ w.right := by omega
  rw [Window.next, if_neg (fun hlast => hborder hlast.2), if_neg hborder, Prod.mk.injEq] at hnext
  refine ⟨t', heq, hlimits, hnext.1.trans hrow, ?_, h.height, ?_, ?_, hconfined.cell⟩
  · rw [hnext.2, hcol, List.length_append, List.length_singleton, Nat.add_assoc]
  · rw [List.length_append, List.length_singleton]
    exact hroom
  · intro i j hin
    have hright := w.right_lt
    rw [hcell _ _ (hin.2.2.trans_lt hright), hrow, hcol, glyphAt_append_glyph, hg.cell_eq]
    simp only [Nat.add_left_cancel_iff]
    split_ifs
    · rfl
    · exact h.shows i j hin

theorem Displays.newline (h : Displays w p t₀ t) (hheight : w.up < w.down) :
    Displays w ⟨(p.above ++ [p.current]).rtake (w.down - w.up), []⟩ t₀ (putNewline t) := by
  obtain ⟨hlimits, hrow, hcol, -⟩ := putNewline_keyboard h.holds
  have habove := h.height
  have hrow' := h.row
  have hright := w.right_lt
  have hlength : ((p.above ++ [p.current]).rtake (w.down - w.up)).length =
      min (p.above.length + 1) (w.down - w.up) := by
    simp [List.rtake]
    omega
  refine ⟨hlimits, ?_, hcol, ?_, Nat.zero_le _, ?_, (putNewline_confined h.confined).cell⟩
  · rw [hrow, hlength]
    split_ifs <;> omega
  · rw [hlength]
    exact min_le_right _ _
  · intro i j hin
    rw [putNewline_cell h.holds (hin.2.2.trans_lt hright), glyphAt_nil_line]
    by_cases hlast : t.keyboard.row.toNat = w.down
    · -- the window is full and the oldest line goes
      have hdrop : (p.above ++ [p.current]).rtake (w.down - w.up) =
          (p.above ++ [p.current]).drop 1 := by
        rw [List.rtake]
        congr 1
        simp
        omega
      rw [if_pos ⟨hlast, hin⟩, hdrop, glyphAt_drop]
      split_ifs with hbottom
      · rw [glyphAt_eq_none _ _ _ (by simp; omega)]
        exact ⟨.inl rfl, rfl⟩
      · obtain ⟨⟨hup, hdown⟩, hcols⟩ := hin
        exact h.shows (i + 1) j ⟨⟨by omega, by omega⟩, hcols⟩
    · have hall : (p.above ++ [p.current]).rtake (w.down - w.up) = p.above ++ [p.current] := by
        rw [List.rtake, Nat.sub_eq_zero_of_le, List.drop_zero]
        simp
        omega
      rw [if_neg (fun hfull => hlast hfull.1), hall]
      exact h.shows i j hin

/-- Printing a glyph follows the page. -/
theorem Displays.feed (h : Displays w p t₀ t) (hheight : w.up < w.down)
    (hroom : p.Room (w.right - w.left) g) : ∃ t', putChar g.fgColor g.bgColor g.char t = .ok t' ∧
      Displays w (p.feed (w.down - w.up) g) t₀ t' := by
  rw [putChar, Page.feed]
  by_cases hnewline : g.char = '\n'.toUInt8
  · rw [if_pos hnewline, if_pos hnewline]
    exact ⟨_, rfl, h.newline hheight⟩
  · obtain ⟨hg, hlength⟩ := hroom.resolve_left hnewline
    rw [if_neg hnewline, if_neg hg.back, if_neg hg.tab, if_neg hnewline]
    exact h.plain hg hlength

theorem Displays.putsLoop (h : Displays w p t₀ t) (hheight : w.up < w.down) {mem : Memory}
    {fg bg : UInt32} {count : ℕ} {buf : UInt32}
    (halong : Along (Page.feed (w.down - w.up)) (Page.Room (w.right - w.left))
      ((putsText mem count buf).map fun c => ⟨c, fg, bg⟩) p) :
    ∃ t', Terminal.putsLoop mem fg bg count buf t = .ok t' ∧
      Displays w (((putsText mem count buf).map fun c => ⟨c, fg, bg⟩).foldl
        (Page.feed (w.down - w.up)) p) t₀ t' := by
  induction count generalizing buf p t with
  | zero => exact ⟨t, rfl, h⟩
  | succ count ih =>
    rw [putsText] at halong ⊢
    rw [Terminal.putsLoop]
    split_ifs with hend
    · exact ⟨t, rfl, h⟩
    · rw [if_neg hend, List.map_cons, along_cons] at halong
      obtain ⟨t', heq, hdisplays⟩ := h.feed hheight halong.1
      rw [heq, List.map_cons, List.foldl_cons]
      exact ih hdisplays halong.2

theorem Displays.putsCalls (h : Displays w p t₀ t) (hheight : w.up < w.down) {calls : List PutsCall}
    (halong : Along (Page.feed (w.down - w.up)) (Page.Room (w.right - w.left))
      (calls.flatMap PutsCall.glyphs) p) :
    ∃ t', Terminal.putsCalls calls t = .ok t' ∧
      Displays w ((calls.flatMap PutsCall.glyphs).foldl (Page.feed (w.down - w.up)) p) t₀ t' := by
  induction calls generalizing p t with
  | nil => exact ⟨t, rfl, h⟩
  | cons call calls ih =>
    rw [List.flatMap_cons, along_append] at halong
    obtain ⟨t', heq, hdisplays⟩ := h.putsLoop hheight halong.1
    rw [Terminal.putsCalls, puts, heq, List.flatMap_cons, List.foldl_append]
    -- the hardware cursor is not part of what is displayed
    have hcursor : Displays w (call.glyphs.foldl (Page.feed (w.down - w.up)) p) t₀
        (framebufferSetCursor t'.keyboard.row t'.keyboard.col t') :=
      ⟨hdisplays.limits, hdisplays.row, hdisplays.col, hdisplays.height, hdisplays.width,
        hdisplays.shows, hdisplays.frame⟩
    exact ih hcursor halong.2

theorem displays_clearScreen (hlimits : w.Limits t.keyboard)
    (hrow : t.keyboard.row.toNat = w.up) (hcol : t.keyboard.col.toNat = w.left) :
    Displays w ⟨[], []⟩ t (clearScreen t) where
  limits := ⟨hlimits.up, hlimits.down, hlimits.left, hlimits.right⟩
  row := hrow
  col := hcol
  height := Nat.zero_le _
  width := Nat.zero_le _
  shows := by
    intro i j hin
    rw [clearScreen_cell hlimits (hin.2.2.trans_lt w.right_lt), if_pos hin]
    change Cell.Shows _ (glyphAt ([] ++ [[]]) i j)
    rw [glyphAt_nil_line, glyphAt_eq_none _ _ _ (Nat.zero_le i)]
    exact ⟨.inr rfl, rfl⟩
  frame := by
    intro r c hc hnot
    rw [clearScreen_cell hlimits hc, if_neg hnot]

/-- After the screen is cleared and lines are printed, each with its newline, the window shows the
last of them from the top, and the cursor stands at the start of the row below them. -/
theorem scrolling_shows_last_lines (hheight : w.up < w.down) (hlimits : w.Limits t.keyboard)
    (hrow : t.keyboard.row.toNat = w.up) (hcol : t.keyboard.col.toNat = w.left)
    {lines : List Line} (hlines : ∀ line ∈ lines, line.Fits w) {calls : List PutsCall}
    (hcalls : calls.flatMap PutsCall.glyphs = lines.flatMap Line.glyphs) :
    ∃ t', putsCalls calls (clearScreen t) = .ok t' ∧
      w.Shows ((lines.map Line.text).rtake (min lines.length (w.down - w.up))) t' ∧
      t'.keyboard.row.toNat = min (w.up + lines.length) w.down ∧
      t'.keyboard.col.toNat = w.left ∧
      ∀ r c, c < 80 → ¬w.Contains r c → t'.cell r c = t.cell r c := by
  obtain ⟨hfold, halong⟩ := @feed_lines (w.down - w.up) w lines hlines []
  have hmin : (lines.map Line.text).rtake (min lines.length (w.down - w.up)) =
      (lines.map Line.text).rtake (w.down - w.up) := by
    rw [List.rtake, List.rtake, List.length_map]
    congr 1
    omega
  rw [List.nil_append, List.rtake_nil] at hfold
  rw [List.rtake_nil, ← hcalls] at halong
  obtain ⟨t', heq, hdisplays⟩ :=
    (displays_clearScreen hlimits hrow hcol).putsCalls hheight halong
  rw [hcalls, hfold] at hdisplays
  refine ⟨t', heq, ?_, ?_, ?_, hdisplays.frame⟩
  · intro i j hin
    rw [hmin, ← glyphAt_nil_line]
    exact hdisplays.shows i j hin
  · rw [hdisplays.row]
    simp only [List.rtake, List.length_drop, List.length_map]
    omega
  · rw [hdisplays.col]
    rfl

def twoRows : Window where
  up := 0
  down := 1
  left := 0
  right := 2
  up_le := Nat.le_of_ble_eq_true rfl
  down_lt := Nat.le_of_ble_eq_true rfl
  left_le := Nat.le_of_ble_eq_true rfl
  right_lt := Nat.le_of_ble_eq_true rfl

def printChar (c : UInt8) (fg bg : UInt32) : PutsCall where
  mem := fun a => if a = 0 then c else '\n'.toUInt8
  args := ⟨0, 2, fg, bg⟩

theorem scrolling_shows_last_lines_two :
    ∃ t', putsCalls [printChar 0x41 0x07 0x00, printChar 0x42 0x0F 0x01]
        (clearScreen (setKeyboardBorders 0 1 0 2 blankScreen)) = .ok t' ∧
      twoRows.Shows ([[⟨0x41, 0x07, 0x00⟩], [⟨0x42, 0x0F, 0x01⟩]].rtake (min 2 1)) t' ∧
      t'.keyboard.row.toNat = min (0 + 2) 1 ∧ t'.keyboard.col.toNat = 0 ∧
      ∀ r c, c < 80 → ¬twoRows.Contains r c →
        t'.cell r c = (setKeyboardBorders 0 1 0 2 blankScreen).cell r c := by
  have hplain : ∀ line ∈ [Line.mk [⟨0x41, 0x07, 0x00⟩] 0x07 0x00, ⟨[⟨0x42, 0x0F, 0x01⟩], 0x0F, 0x01⟩],
      line.Fits twoRows := by
    intro line hline
    have hcases : line = ⟨[⟨0x41, 0x07, 0x00⟩], 0x07, 0x00⟩ ∨
        line = ⟨[⟨0x42, 0x0F, 0x01⟩], 0x0F, 0x01⟩ := by simpa using hline
    obtain rfl | rfl := hcases
    all_goals
      refine ⟨?_, by decide⟩
      intro g hg
      rw [List.mem_singleton.mp hg]
      exact ⟨by decide, by decide, by decide, by decide, by decide⟩
  exact scrolling_shows_last_lines (by decide) ⟨rfl, rfl, rfl, rfl⟩ rfl rfl hplain (by decide)

end Displays

end Os2024.Terminal
