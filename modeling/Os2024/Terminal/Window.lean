import Os2024.Library.LoopUpdates
import Os2024.Library.StepwiseRuns
import Os2024.Terminal.Screen

/-! # Output inside the window

The limits of the keyboard driver bound a window of the screen. What each character
does to the cells and to the cursor is said once; a tab beyond the right border and
a backspace at the left one are all that can take the cursor out of the window.
-/

namespace Os2024.Terminal
open Library.LoopUpdates Library.StepwiseRuns

/-- A window of the screen. -/
structure Window where
  up : ℕ
  down : ℕ
  left : ℕ
  right : ℕ
  up_le : up ≤ down
  down_lt : down < 25
  left_le : left ≤ right
  right_lt : right < 80

namespace Window

def Rows (w : Window) (r : ℕ) : Prop := w.up ≤ r ∧ r ≤ w.down

def Columns (w : Window) (c : ℕ) : Prop := w.left ≤ c ∧ c ≤ w.right

def Contains (w : Window) (r c : ℕ) : Prop := w.Rows r ∧ w.Columns c

instance (w : Window) (r : ℕ) : Decidable (w.Rows r) :=
  inferInstanceAs (Decidable (w.up ≤ r ∧ r ≤ w.down))

instance (w : Window) (c : ℕ) : Decidable (w.Columns c) :=
  inferInstanceAs (Decidable (w.left ≤ c ∧ c ≤ w.right))

instance (w : Window) (r c : ℕ) : Decidable (w.Contains r c) :=
  inferInstanceAs (Decidable (w.Rows r ∧ w.Columns c))

structure Limits (w : Window) (k : KeyboardDriverState) : Prop where
  up : k.upLimit.toNat = w.up
  down : k.downLimit.toNat = w.down
  left : k.leftLimit.toNat = w.left
  right : k.rightLimit.toNat = w.right

structure Holds (w : Window) (k : KeyboardDriverState) : Prop extends w.Limits k where
  cursor : w.Contains k.row.toNat k.col.toNat

end Window

def cells (fb : Framebuffer) (key : ℕ × Fin 80) : Cell := cellOf fb key.1 key.2

section Loops
variable {w : Window} {k : KeyboardDriverState}

theorem write_ofNat {i j : ℕ} (hi : i < 25) (hj : j < 80) (ch fg bg : UInt8) (fb : Framebuffer)
    {r c : ℕ} (hc : c < 80) : cellOf (framebufferWrite (.ofNat i) (.ofNat j) ch fg bg fb) r c =
      if r = i ∧ c = j then ⟨ch, bg <<< 4 ||| fg &&& 0x0F⟩ else cellOf fb r c := by
  have hi' : (UInt8.ofNat i).toNat = i := by rw [UInt8.toNat_ofNat']; omega
  have hj' : (UInt8.ofNat j).toNat = j := by rw [UInt8.toNat_ofNat']; omega
  rw [cellOf_framebufferWrite (by rw [hi']; exact hi) (by rw [hj']; exact hj) hc, hi', hj']

theorem scrollCell_cell {i j : ℕ} (hi : i < 25) (hj : j < 80) (fb : Framebuffer) {r c : ℕ}
    (hc : c < 80) : cellOf (scrollCell i j fb) r c =
      if r = i ∧ c = j then cellOf fb (i + 1) j else cellOf fb r c := by
  rw [scrollCell, write_ofNat hi hj _ _ _ _ hc, attr_rejoin]
  rfl

/-- A loop over the columns of row `i` whose passes write single cells, from cells of other rows. -/
theorem columns_foldl {pass : Framebuffer → ℕ → Framebuffer} {i : ℕ}
    {value : (ℕ × Fin 80 → Cell) → ℕ × Fin 80 → Cell}
    (hpass : ∀ j fb (key : ℕ × Fin 80), j < 80 → cells (pass fb j) key =
      if key.1 = i ∧ key.2.val = j then value (cells fb) key else cells fb key)
    (hvalue : ∀ g g' key, (∀ key', key'.1 ≠ i → g key' = g' key') → key.1 = i → value g key = value g' key)
    {left right : ℕ} (hright : right < 80) (fb : Framebuffer) (key : ℕ × Fin 80) :
    cells ((intRange left (right + 1)).foldl pass fb) key =
      if key.1 = i ∧ left ≤ key.2.val ∧ key.2.val ≤ right then value (cells fb) key
      else cells fb key := by
  have hupdates : Updates cells pass (fun j key => key.1 = i ∧ key.2.val = j)
      (fun _ => value) left (left + (right + 1 - left)) := by
    constructor
    · intro j s key hfirst hlast hon
      rw [hpass j s key (by omega), if_pos hon]
    · intro j s key hfirst hlast hnot
      rw [hpass j s key (by omega), if_neg hnot]
    · intro j j' key hj hj'
      exact hj.2.symm.trans hj'.2
    · intro j g g' key hon hagree
      exact hvalue g g' key (fun key' hne => hagree key' fun _ _ _ h => hne h.1) hon.1
  rw [intRange]
  split_ifs with hkey
  · exact hupdates.foldl_inside fb (by omega) (by omega) ⟨hkey.1, rfl⟩
  · apply hupdates.foldl_outside fb
    rintro j hfirst hlast ⟨hrow, hcol⟩
    exact hkey ⟨hrow, by omega, by omega⟩

/-- A loop over rows whose passes write the columns of the window, from rows further down. -/
theorem rows_foldl {pass : Framebuffer → ℕ → Framebuffer} {left right : ℕ}
    {value : (ℕ × Fin 80 → Cell) → ℕ × Fin 80 → Cell}
    (hpass : ∀ i fb (key : ℕ × Fin 80), i < 25 → cells (pass fb i) key =
      if key.1 = i ∧ left ≤ key.2.val ∧ key.2.val ≤ right then value (cells fb) key
      else cells fb key)
    (hvalue : ∀ g g' key, (∀ key', key.1 < key'.1 → g key' = g' key') → value g key = value g' key)
    {first last : ℕ} (hlast : last ≤ 25) (fb : Framebuffer) (key : ℕ × Fin 80) :
    cells ((intRange first last).foldl pass fb) key =
      if (first ≤ key.1 ∧ key.1 < last) ∧ left ≤ key.2.val ∧ key.2.val ≤ right then
        value (cells fb) key
      else cells fb key := by
  have hupdates : Updates cells pass
      (fun i key => key.1 = i ∧ left ≤ key.2.val ∧ key.2.val ≤ right)
      (fun _ => value) first (first + (last - first)) := by
    constructor
    · intro i s key hfirst hlt hon
      rw [hpass i s key (by omega), if_pos hon]
    · intro i s key hfirst hlt hnot
      rw [hpass i s key (by omega), if_neg hnot]
    · intro i i' key hi hi'
      exact hi.1.symm.trans hi'.1
    · intro i g g' key hon hagree
      apply hvalue
      intro key' hlt
      apply hagree
      rintro j hj hji ⟨hrow, -⟩
      omega
  rw [intRange]
  split_ifs with hkey
  · exact hupdates.foldl_inside fb (by omega) (by omega) ⟨rfl, hkey.2⟩
  · apply hupdates.foldl_outside fb
    rintro i hfirst hlt ⟨hrow, hcol⟩
    exact hkey ⟨by omega, hcol⟩

/-- The window moves up by one row, and its last row becomes blank. -/
theorem scrollUp_cell (h : w.Limits k) (fb : Framebuffer) {r c : ℕ} (hc : c < 80) :
    cellOf (scrollUp k fb) r c =
      if w.Contains r c then if r = w.down then blankCell else cellOf fb (r + 1) c
      else cellOf fb r c := by
  have hdown := w.down_lt
  have hright := w.right_lt
  have hscroll : ∀ i fb (key : ℕ × Fin 80), i < 25 →
      cells ((intRange w.left (w.right + 1)).foldl (fun fb j => scrollCell i j fb) fb) key =
        if key.1 = i ∧ w.left ≤ key.2.val ∧ key.2.val ≤ w.right then cells fb (key.1 + 1, key.2)
        else cells fb key := by
    intro i fb key hi
    apply @columns_foldl _ i (fun g key => g (key.1 + 1, key.2)) ?_ ?_ _ _ hright
    · intro j fb key hj
      rw [cells, scrollCell_cell hi hj fb key.2.isLt]
      split_ifs with hkey
      · rw [cells, hkey.1, hkey.2]
      · rfl
    · intro g g' key hagree hkey
      exact hagree _ (by simp [hkey])
  have hrows := @rows_foldl _ w.left w.right (fun g key => g (key.1 + 1, key.2)) hscroll
    (fun g g' key hagree => hagree _ (Nat.lt_succ_self key.1)) w.up w.down hdown.le
  have hlast : ∀ fb (key : ℕ × Fin 80), cells ((intRange w.left (w.right + 1)).foldl
      (fun fb j => framebufferWrite k.downLimit (.ofNat j) 0x20 0x07 0x00 fb) fb) key =
        if key.1 = w.down ∧ w.left ≤ key.2.val ∧ key.2.val ≤ w.right then blankCell
        else cells fb key := by
    intro fb key
    apply @columns_foldl _ w.down (fun _ _ => blankCell) ?_ ?_ _ _ hright
    · intro j fb key hj
      have hdown' : k.downLimit = .ofNat w.down := by rw [← h.down, UInt8.ofNat_toNat]
      rw [cells, hdown', write_ofNat hdown hj _ _ _ _ key.2.isLt]
      rfl
    · intros
      rfl
  rw [scrollUp, h.left, h.right, h.up, h.down]
  have hkey := hlast ((intRange w.up w.down).foldl (fun fb i =>
    (intRange w.left (w.right + 1)).foldl (fun fb j => scrollCell i j fb) fb) fb) (r, ⟨c, hc⟩)
  rw [hrows] at hkey
  dsimp only [cells] at hkey
  rw [hkey]
  have hup := w.up_le
  simp only [Window.Contains, Window.Rows, Window.Columns]
  by_cases hcols : w.left ≤ c ∧ c ≤ w.right
  · by_cases hlow : r = w.down
    · simp [hcols, hlow, hup]
    · have hrange : w.up ≤ r ∧ r < w.down ↔ w.up ≤ r ∧ r ≤ w.down := by omega
      simp [hcols, hlow, hrange]
  · simp [hcols]

theorem clearScreen_cell {t : Screen} (h : w.Limits t.keyboard) {r c : ℕ} (hc : c < 80) :
    (clearScreen t).cell r c = if w.Contains r c then ⟨0x00, 0x07⟩ else t.cell r c := by
  have hdown := w.down_lt
  have hright := w.right_lt
  have hrow : ∀ i fb (key : ℕ × Fin 80), i < 25 →
      cells ((intRange w.left (w.right + 1)).foldl
        (fun fb j => framebufferWrite (.ofNat i) (.ofNat j) 0x00 0x07 0x00 fb) fb) key =
          if key.1 = i ∧ w.left ≤ key.2.val ∧ key.2.val ≤ w.right then ⟨0x00, 0x07⟩
          else cells fb key := by
    intro i fb key hi
    apply @columns_foldl _ i (fun _ _ => ⟨0x00, 0x07⟩) ?_ ?_ _ _ hright
    · intro j fb key hj
      rw [cells, write_ofNat hi hj _ _ _ _ key.2.isLt]
      rfl
    · intros
      rfl
  have hkey := @rows_foldl _ w.left w.right (fun _ _ => ⟨0x00, 0x07⟩) hrow (fun _ _ _ _ => rfl)
    w.up (w.down + 1) hdown t.framebuffer (r, ⟨c, hc⟩)
  rw [Screen.cell, clearScreen, h.left, h.right, h.up, h.down]
  by_cases hin : w.Contains r c
  · rw [if_pos ⟨⟨hin.1.1, Nat.lt_succ_of_le hin.1.2⟩, hin.2⟩] at hkey
    rw [if_pos hin]
    exact hkey
  · rw [if_neg (fun h => hin ⟨⟨h.1.1, Nat.le_of_lt_succ h.1.2⟩, h.2⟩)] at hkey
    rw [if_neg hin]
    exact hkey

end Loops

/-- Where the cursor goes after a character; it stays in the last cell. -/
def Window.next (w : Window) (row col : ℕ) : ℕ × ℕ :=
  if row = w.down ∧ col = w.right then (row, col)
  else if col = w.right then (row + 1, w.left)
  else (row, col + 1)

def tabStop (col : ℕ) : ℕ := col / 4 * 4 + 4

theorem toNat_tab {col : UInt8} (h : col.toNat < 80) :
    ((col + 4) &&& ~~~3).toNat = tabStop col.toNat := by
  have hall : ∀ n : Fin 80, ((UInt8.ofNat n + 4) &&& ~~~3).toNat = tabStop n := by decide +kernel
  have hcol := hall ⟨col.toNat, h⟩
  rwa [UInt8.ofNat_toNat] at hcol

theorem toNat_succ {x : UInt8} (h : x.toNat < 255) : (x + 1).toNat = x.toNat + 1 := by
  rw [UInt8.toNat_add]
  exact Nat.mod_eq_of_lt (Nat.succ_lt_succ h)

theorem toNat_pred {x y : UInt8} (h : y < x) : (x - 1).toNat = x.toNat - 1 := by
  rw [UInt8.lt_iff_toNat_lt] at h
  apply UInt8.toNat_sub_of_le
  rw [UInt8.le_iff_toNat_le]
  exact Nat.one_le_of_lt h

section Characters
variable {w : Window} {t : Screen}

namespace Window.Holds
variable {k : KeyboardDriverState}

theorem row_lt (h : w.Holds k) : k.row.toNat < 25 := h.cursor.1.2.trans_lt w.down_lt

theorem col_lt (h : w.Holds k) : k.col.toNat < 80 := h.cursor.2.2.trans_lt w.right_lt

theorem row_eq_down (h : w.Holds k) : k.row = k.downLimit ↔ k.row.toNat = w.down := by
  rw [← h.down, UInt8.toNat_inj]

theorem col_eq_right (h : w.Holds k) : k.col = k.rightLimit ↔ k.col.toNat = w.right := by
  rw [← h.right, UInt8.toNat_inj]

end Window.Holds

theorem Window.contains_next {row col : ℕ} (h : w.Contains row col) :
    w.Contains (w.next row col).1 (w.next row col).2 := by
  obtain ⟨⟨hup, hdown⟩, hleft, hright⟩ := h
  have hle := w.left_le
  rw [next]
  split_ifs with hlast hborder
  · exact ⟨⟨hup, hdown⟩, hleft, hright⟩
  · have hrow : row ≠ w.down := fun hrow => hlast ⟨hrow, hborder⟩
    exact ⟨⟨by omega, by omega⟩, le_rfl, hle⟩
  · exact ⟨⟨hup, hdown⟩, by omega, by omega⟩

theorem putNewline_keyboard (h : w.Holds t.keyboard) : w.Limits (putNewline t).keyboard ∧
    (putNewline t).keyboard.row.toNat =
      (if t.keyboard.row.toNat = w.down then w.down else t.keyboard.row.toNat + 1) ∧
    (putNewline t).keyboard.col.toNat = w.left ∧
    (putNewline t).keyboard.lastNonSpaceCol = t.keyboard.lastNonSpaceCol := by
  have hrow := h.row_lt
  simp only [putNewline, h.row_eq_down]
  split_ifs with hdown
  · exact ⟨⟨h.up, h.down, h.left, h.right⟩, hdown, h.left, rfl⟩
  · exact ⟨⟨h.up, h.down, h.left, h.right⟩, toNat_succ (by omega), h.left, rfl⟩

theorem putNewline_cell (h : w.Holds t.keyboard) {r c : ℕ} (hc : c < 80) :
    (putNewline t).cell r c =
      if t.keyboard.row.toNat = w.down ∧ w.Contains r c then
        if r = w.down then blankCell else t.cell (r + 1) c
      else t.cell r c := by
  simp only [putNewline, h.row_eq_down]
  by_cases hdown : t.keyboard.row.toNat = w.down
  · rw [if_pos hdown]
    apply (scrollUp_cell h.toLimits t.framebuffer hc).trans
    simp [hdown, Screen.cell]
  · simp [hdown, Screen.cell]

theorem putPlain_spec (h : w.Holds t.keyboard) (ch fg bg : UInt8) :
    ∃ t', putPlain ch fg bg t = .ok t' ∧ w.Limits t'.keyboard ∧
      (t'.keyboard.row.toNat, t'.keyboard.col.toNat) =
        w.next t.keyboard.row.toNat t.keyboard.col.toNat ∧
      (∀ r : Fin 25, t'.keyboard.lastNonSpaceCol r =
        if r.val = t.keyboard.row.toNat then t.keyboard.col else t.keyboard.lastNonSpaceCol r) ∧
      ∀ r c, c < 80 → t'.cell r c =
        if r = t.keyboard.row.toNat ∧ c = t.keyboard.col.toNat then
          ⟨ch, bg <<< 4 ||| fg &&& 0x0F⟩
        else t.cell r c := by
  have hrow := h.row_lt
  have hcol := h.col_lt
  rw [putPlain, dif_pos hrow]
  refine ⟨_, rfl, ?_, ?_, ?_, ?_⟩
  · dsimp only
    split_ifs <;> exact ⟨h.up, h.down, h.left, h.right⟩
  · simp only [Window.next, h.row_eq_down, h.col_eq_right]
    split_ifs with hlast hborder
    · rfl
    · exact Prod.ext (toNat_succ (by omega)) h.left
    · exact Prod.ext rfl (toNat_succ (by omega))
  · intro r
    have hupdate : Function.update t.keyboard.lastNonSpaceCol ⟨t.keyboard.row.toNat, hrow⟩
        t.keyboard.col r = if r.val = t.keyboard.row.toNat then t.keyboard.col
          else t.keyboard.lastNonSpaceCol r := by
      simp [Function.update_apply, Fin.ext_iff]
    rw [← hupdate]
    dsimp only
    split_ifs <;> rfl
  · intro r c hc
    exact cellOf_framebufferWrite hrow hcol hc

theorem putBackspace_erase (h : w.Holds t.keyboard) (hcol : w.left < t.keyboard.col.toNat) :
    ∃ t', putBackspace t = .ok t' ∧ w.Limits t'.keyboard ∧
      t'.keyboard.row = t.keyboard.row ∧
      t'.keyboard.col.toNat = t.keyboard.col.toNat - 1 ∧
      t'.keyboard.lastNonSpaceCol = t.keyboard.lastNonSpaceCol ∧
      ∀ r c, c < 80 → t'.cell r c =
        if r = t.keyboard.row.toNat ∧ c = t.keyboard.col.toNat - 1 then blankCell
        else t.cell r c := by
  have hlt : t.keyboard.leftLimit < t.keyboard.col := by
    rwa [UInt8.lt_iff_toNat_lt, h.left]
  have hpred := toNat_pred hlt
  have hcol' := h.col_lt
  rw [putBackspace, if_pos hlt]
  refine ⟨_, rfl, ⟨h.up, h.down, h.left, h.right⟩, rfl, hpred, rfl, ?_⟩
  intro r c hc
  apply (cellOf_framebufferWrite h.row_lt (by omega) hc).trans
  rw [hpred]
  rfl

theorem putBackspace_wrap (h : w.Holds t.keyboard) (hcol : t.keyboard.col.toNat = w.left)
    {r : Fin 25} (hr : r.val + 1 = t.keyboard.row.toNat) (hup : w.up ≤ r) :
    ∃ t', putBackspace t = .ok t' ∧ w.Limits t'.keyboard ∧
      t'.keyboard.row.toNat = r ∧
      t'.keyboard.col = t.keyboard.lastNonSpaceCol r + 1 ∧
      t'.keyboard.lastNonSpaceCol = t.keyboard.lastNonSpaceCol ∧
      t'.framebuffer = t.framebuffer := by
  have hnot : ¬t.keyboard.leftLimit < t.keyboard.col := by
    rw [UInt8.lt_iff_toNat_lt, h.left]
    omega
  have hlt : t.keyboard.upLimit < t.keyboard.row := by
    rw [UInt8.lt_iff_toNat_lt, h.up]
    omega
  have hpred : (t.keyboard.row - 1).toNat = r := by
    rw [toNat_pred hlt]
    omega
  have hin : (t.keyboard.row - 1).toNat < 25 := by
    rw [hpred]
    exact r.isLt
  have hindex : (⟨(t.keyboard.row - 1).toNat, hin⟩ : Fin 25) = r := Fin.ext hpred
  rw [putBackspace, if_neg hnot, if_pos hlt, dif_pos hin, hindex]
  exact ⟨_, rfl, ⟨h.up, h.down, h.left, h.right⟩, hpred, rfl, rfl, rfl⟩

theorem putBackspace_corner (h : w.Holds t.keyboard) (hcol : t.keyboard.col.toNat = w.left)
    (hrow : t.keyboard.row.toNat = w.up) : putBackspace t = .ok t := by
  have hcol' : ¬t.keyboard.leftLimit < t.keyboard.col := by
    rw [UInt8.lt_iff_toNat_lt, h.left]
    omega
  have hrow' : ¬t.keyboard.upLimit < t.keyboard.row := by
    rw [UInt8.lt_iff_toNat_lt, h.up]
    omega
  rw [putBackspace, if_neg hcol', if_neg hrow']

end Characters

/-- The cursor is in the window and only cells of the window differ. -/
structure Window.Confined (w : Window) (t t' : Screen) : Prop where
  holds : w.Holds t'.keyboard
  cell : ∀ r c, c < 80 → ¬w.Contains r c → t'.cell r c = t.cell r c

/-- The call returns such a screen. -/
def Window.Contained (w : Window) (t : Screen) (x : Except Fault Screen) : Prop :=
  ∃ t', x = .ok t' ∧ w.Confined t t'

/-- A tab stop that is in the window, and a backspace to a remembered column that is. -/
structure Window.Stays (w : Window) (t : Screen) (c : UInt8) : Prop where
  tab : c = '\t'.toUInt8 → w.Columns (tabStop t.keyboard.col.toNat)
  back : c = '\x08'.toUInt8 → t.keyboard.col.toNat = w.left →
    ∀ r : Fin 25, r.val + 1 = t.keyboard.row.toNat → w.up ≤ r →
      w.Columns (t.keyboard.lastNonSpaceCol r + 1).toNat

section Strings
variable {w : Window} {t t' : Screen}

theorem Window.contained_ok : w.Contained t (.ok t') ↔ w.Confined t t' := by
  simp [Window.Contained]

theorem putNewline_confined (h : w.Confined t t') : w.Confined t (putNewline t') := by
  obtain ⟨hlimits, hrow, hcol, -⟩ := putNewline_keyboard h.holds
  obtain ⟨⟨hup, hdown⟩, -⟩ := h.holds.cursor
  have hle := w.left_le
  refine ⟨⟨hlimits, ?_⟩, ?_⟩
  · rw [hrow, hcol]
    split_ifs
    · exact ⟨⟨w.up_le, le_rfl⟩, le_rfl, hle⟩
    · exact ⟨⟨by omega, by omega⟩, le_rfl, hle⟩
  · intro r c hc hnot
    rw [putNewline_cell h.holds hc, if_neg (fun hin => hnot hin.2)]
    exact h.cell r c hc hnot

theorem putPlain_confined (h : w.Confined t t') (ch fg bg : UInt8) :
    w.Contained t (putPlain ch fg bg t') := by
  obtain ⟨t'', heq, hlimits, hnext, -, hcell⟩ := putPlain_spec h.holds ch fg bg
  have hin := Window.contains_next h.holds.cursor
  rw [heq, Window.contained_ok]
  refine ⟨⟨hlimits, ?_⟩, ?_⟩
  · rwa [← hnext] at hin
  · intro r c hc hnot
    rw [hcell r c hc, if_neg]
    · exact h.cell r c hc hnot
    · rintro ⟨rfl, rfl⟩
      exact hnot h.holds.cursor

theorem putTab_confined_iff (h : w.Confined t t') :
    w.Confined t (putTab t') ↔ w.Columns (tabStop t'.keyboard.col.toNat) := by
  have hcol : (putTab t').keyboard.col.toNat = tabStop t'.keyboard.col.toNat :=
    toNat_tab h.holds.col_lt
  rw [← hcol]
  constructor
  · intro hconfined
    exact hconfined.holds.cursor.2
  · intro hcolumns
    have hlimits : w.Limits (putTab t').keyboard :=
      ⟨h.holds.up, h.holds.down, h.holds.left, h.holds.right⟩
    exact ⟨⟨hlimits, h.holds.cursor.1, hcolumns⟩, h.cell⟩

theorem putBackspace_contained_iff (h : w.Confined t t') : w.Contained t (putBackspace t') ↔
    (t'.keyboard.col.toNat = w.left → ∀ r : Fin 25, r.val + 1 = t'.keyboard.row.toNat →
      w.up ≤ r → w.Columns (t'.keyboard.lastNonSpaceCol r + 1).toNat) := by
  have hholds := h.holds
  obtain ⟨⟨hup, hdown⟩, hleft, hright⟩ := hholds.cursor
  by_cases hcol : t'.keyboard.col.toNat = w.left
  · by_cases hrow : t'.keyboard.row.toNat = w.up
    · rw [putBackspace_corner hholds hcol hrow, Window.contained_ok]
      constructor
      · intro _ _ r hr hle
        omega
      · exact fun _ => h
    · -- the cursor goes to the row above
      have hrow_lt := hholds.row_lt
      let r : Fin 25 := ⟨t'.keyboard.row.toNat - 1, by omega⟩
      have hr : r.val + 1 = t'.keyboard.row.toNat := by
        dsimp only [r]
        omega
      have hle : w.up ≤ r := by omega
      obtain ⟨t'', heq, hlimits, hrow', hcol', -, hframe⟩ := putBackspace_wrap hholds hcol hr hle
      rw [heq, Window.contained_ok]
      constructor
      · intro hconfined _ r' hr' _
        have hsame : r' = r := Fin.ext (by omega)
        rw [hsame, ← hcol']
        exact hconfined.holds.cursor.2
      · intro hcolumns
        have hin := hcolumns hcol r hr hle
        rw [← hcol'] at hin
        refine ⟨⟨hlimits, ?_, hin⟩, ?_⟩
        · rw [hrow']
          exact ⟨hle, by omega⟩
        · intro r c hc hnot
          rw [← h.cell r c hc hnot, Screen.cell, hframe]
          rfl
  · obtain ⟨t'', heq, hlimits, hrow', hcol', -, hcell⟩ := putBackspace_erase hholds (by omega)
    rw [heq, Window.contained_ok]
    constructor
    · exact fun _ hcol'' => absurd hcol'' hcol
    · intro _
      refine ⟨⟨hlimits, ?_⟩, ?_⟩
      · rw [hrow', hcol']
        exact ⟨⟨hup, hdown⟩, by omega, by omega⟩
      · intro r c hc hnot
        rw [hcell r c hc, if_neg]
        · exact h.cell r c hc hnot
        · rintro ⟨rfl, rfl⟩
          exact hnot ⟨⟨hup, hdown⟩, by omega, by omega⟩

theorem putChar_contained_iff (h : w.Confined t t') (fg bg : UInt32) (c : UInt8) :
    w.Contained t (putChar fg bg c t') ↔ w.Stays t' c := by
  have hstays : w.Stays t' c ↔ (c = '\t'.toUInt8 → w.Columns (tabStop t'.keyboard.col.toNat)) ∧
      (c = '\x08'.toUInt8 → t'.keyboard.col.toNat = w.left → ∀ r : Fin 25,
        r.val + 1 = t'.keyboard.row.toNat → w.up ≤ r →
          w.Columns (t'.keyboard.lastNonSpaceCol r + 1).toNat) :=
    ⟨fun h => ⟨h.tab, h.back⟩, fun h => ⟨h.1, h.2⟩⟩
  rw [hstays, putChar]
  split_ifs with hnewline hback htab
  · have htab : c ≠ '\t'.toUInt8 := by
      rw [hnewline]
      decide
    have hback : c ≠ '\x08'.toUInt8 := by
      rw [hnewline]
      decide
    simp [Window.contained_ok, putNewline_confined h, htab, hback]
  · have htab : c ≠ '\t'.toUInt8 := by
      rw [hback]
      decide
    rw [putBackspace_contained_iff h]
    exact ⟨fun hin => ⟨fun h => absurd h htab, fun _ => hin⟩, fun hin => hin.2 hback⟩
  · rw [Window.contained_ok, putTab_confined_iff h]
    exact ⟨fun hin => ⟨fun _ => hin, fun h => absurd h hback⟩, fun hin => hin.1 htab⟩
  · simp [putPlain_confined h, htab, hback]

/-- The characters that `puts` gets to see. -/
def putsText (mem : Memory) : ℕ → UInt32 → List UInt8
  | 0, _ => []
  | count + 1, buf => if mem buf = 0 then [] else mem buf :: putsText mem count (buf + 1)

def putStep (fg bg : UInt32) (x : Except Fault Screen) (c : UInt8) : Except Fault Screen :=
  x.bind (putChar fg bg c)

theorem foldl_putStep_error (fg bg : UInt32) (f : Fault) (text : List UInt8) :
    text.foldl (putStep fg bg) (.error f) = .error f := by
  induction text with
  | nil => rfl
  | cons c text ih => exact ih

theorem putsLoop_eq (mem : Memory) (fg bg : UInt32) (count : ℕ) (buf : UInt32) (t : Screen) :
    putsLoop mem fg bg count buf t = (putsText mem count buf).foldl (putStep fg bg) (.ok t) := by
  induction count generalizing buf t with
  | zero => rfl
  | succ count ih =>
    rw [putsLoop, putsText]
    split_ifs
    · rfl
    · rw [List.foldl_cons]
      change _ = (putsText mem count (buf + 1)).foldl (putStep fg bg) (putChar fg bg (mem buf) t)
      cases putChar fg bg (mem buf) t with
      | error f => exact (foldl_putStep_error fg bg f _).symm
      | ok t' => exact ih (buf + 1) t'

theorem prefix_putsText_iff {mem : Memory} {count : ℕ} {buf : UInt32} {text : List UInt8} :
    text <+: putsText mem count buf ↔ ∃ n ≤ count, text = putsText mem n buf := by
  induction count generalizing buf text with
  | zero => simp [putsText]
  | succ count ih =>
    cases text with
    | nil => exact iff_of_true List.nil_prefix ⟨0, Nat.zero_le _, rfl⟩
    | cons c text =>
      rw [putsText]
      split_ifs with hend
      · rw [List.prefix_nil]
        constructor
        · intro h
          cases h
        · rintro ⟨n, -, hn⟩
          cases n <;> simp [putsText, hend] at hn
      · rw [List.cons_prefix_cons, ih]
        constructor
        · rintro ⟨rfl, n, hn, rfl⟩
          exact ⟨n + 1, Nat.succ_le_succ hn, by rw [putsText, if_neg hend]⟩
        · rintro ⟨n, hn, heq⟩
          cases n with
          | zero => simp [putsText] at heq
          | succ n =>
            rw [putsText, if_neg hend, List.cons.injEq] at heq
            exact ⟨heq.1, n, Nat.le_of_succ_le_succ hn, heq.2⟩

/-- Moving the hardware cursor at the end changes neither cells nor the driver. -/
theorem puts_contained {mem : Memory} {args : SyscallPutsArgs} : w.Contained t (puts mem args t') ↔
    w.Contained t (putsLoop mem args.fgColor args.bgColor args.count.toNat args.buf t') := by
  rw [puts]
  cases putsLoop mem args.fgColor args.bgColor args.count.toNat args.buf t' with
  | error f => rfl
  | ok t'' =>
    dsimp only
    rw [Window.contained_ok, Window.contained_ok]
    exact ⟨fun h => ⟨h.holds, h.cell⟩, fun h => ⟨h.holds, h.cell⟩⟩

/-- The character meets the condition in the state it is printed in. -/
def Window.StaysAt (w : Window) (x : Except Fault Screen) (c : UInt8) : Prop :=
  ∃ t, x = .ok t ∧ w.Stays t c

/-- Up to every count the call stays inside the window exactly when no tab passes the right border
and no backspace at the left border goes to a remembered column that is not in the window. -/
theorem puts_contained_iff (mem : Memory) (args : SyscallPutsArgs) (h : w.Holds t.keyboard) :
    (∀ count ≤ args.count, w.Contained t (puts mem { args with count := count } t)) ↔
      Along (putStep args.fgColor args.bgColor) w.StaysAt
        (putsText mem args.count.toNat args.buf) (.ok t) := by
  have hstart : w.Contained t (.ok t) := ⟨t, rfl, h, fun _ _ _ _ => rfl⟩
  rw [← forall_prefix_iff_along (I := fun _ => True) trivial (fun _ _ _ => trivial) hstart ?_]
  · constructor
    · intro hall text htext
      obtain ⟨n, hn, rfl⟩ := prefix_putsText_iff.mp htext
      have hcount : (UInt32.ofNat n).toNat = n := by
        have hlt := args.count.toNat_lt
        rw [UInt32.toNat_ofNat']
        omega
      have hcall := hall (.ofNat n) (by rw [UInt32.le_iff_toNat_le, hcount]; exact hn)
      rw [puts_contained, putsLoop_eq, hcount] at hcall
      exact hcall
    · intro hall count hcount
      rw [puts_contained, putsLoop_eq]
      apply hall
      rw [prefix_putsText_iff]
      exact ⟨count.toNat, UInt32.le_iff_toNat_le.mp hcount, rfl⟩
  · rintro x c - ⟨t', rfl, hconfined⟩
    change w.Contained t (putChar args.fgColor args.bgColor c t') ↔ _
    rw [putChar_contained_iff hconfined]
    simp [Window.StaysAt]

def blankScreen : Screen where
  framebuffer := fun a => if a % 2 = 0 then 0x00 else 0x07
  keyboard := initialKeyboard
  cursorLocation := 0

def shellWindow : Window where
  up := 2
  down := 21
  left := 2
  right := 77
  up_le := Nat.le_of_ble_eq_true rfl
  down_lt := Nat.le_of_ble_eq_true rfl
  left_le := Nat.le_of_ble_eq_true rfl
  right_lt := Nat.le_of_ble_eq_true rfl

def shellScreen (row col : UInt32) : Screen :=
  setCursor row col (setKeyboardBorders 2 21 2 77 blankScreen)

theorem puts_contained_iff_line : (∀ count ≤ 2, shellWindow.Contained (shellScreen 2 2)
      (puts (fun a => if a = 0 then 0x41 else 0x0A) ⟨0, count, 0x07, 0x00⟩ (shellScreen 2 2))) ↔
    Along (putStep 0x07 0x00) shellWindow.StaysAt [0x41, 0x0A] (.ok (shellScreen 2 2)) :=
  puts_contained_iff (fun a => if a = 0 then 0x41 else 0x0A) ⟨0, 2, 0x07, 0x00⟩
    ⟨⟨rfl, rfl, rfl, rfl⟩, by decide⟩

/-- A tab in the last columns takes the cursor across the right border. -/
theorem puts_tab_leaves : shellWindow.Holds (shellScreen 2 76).keyboard ∧
    ¬shellWindow.Contained (shellScreen 2 76)
      (puts (fun _ => '\t'.toUInt8) ⟨0, 1, 0x07, 0x00⟩ (shellScreen 2 76)) := by
  refine ⟨⟨⟨rfl, rfl, rfl, rfl⟩, by decide⟩, ?_⟩
  rintro ⟨t', hok, hconfined⟩
  obtain rfl := Except.ok.inj hok
  exact absurd hconfined.holds.cursor (by decide)

end Strings

end Os2024.Terminal
