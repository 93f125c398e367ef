import Os2024.Terminal.Window

/-! # Reading a window row by row

The cells of a window are numbered in the order in which text is read. A printed
character takes the next place, and a place determines its cell.
-/

namespace Os2024.Terminal.Window

def width (w : Window) : ℕ := w.right - w.left + 1

/-- The place of a cell when the window is read row by row. -/
def index (w : Window) (r c : ℕ) : ℕ := (r - w.up) * w.width + (c - w.left)

def cellAt (w : Window) (t : Screen) (i : ℕ) : Cell :=
  t.cell (w.up + i / w.width) (w.left + i % w.width)

def cursorIndex (w : Window) (t : Screen) : ℕ :=
  w.index t.keyboard.row.toNat t.keyboard.col.toNat

def textFrom (w : Window) (start : ℕ) (t : Screen) : List UInt8 :=
  (List.range' start (w.cursorIndex t - start)).map fun i => (w.cellAt t i).char

section Index
variable {w : Window} {r c i : ℕ} {t t' : Screen}

theorem width_pos : 0 < w.width := Nat.succ_pos _

theorem index_div_mod (h : w.Contains r c) :
    w.index r c / w.width = r - w.up ∧ w.index r c % w.width = c - w.left := by
  obtain ⟨-, hleft, hright⟩ := h
  have hlt : c - w.left < w.width := by
    rw [width]
    omega
  rw [index, Nat.mul_comm, Nat.mul_add_div width_pos, Nat.mul_add_mod, Nat.div_eq_of_lt hlt,
    Nat.mod_eq_of_lt hlt]
  exact ⟨rfl, rfl⟩

theorem eq_index_iff (h : w.Contains r c) :
    w.up + i / w.width = r ∧ w.left + i % w.width = c ↔ i = w.index r c := by
  obtain ⟨hdiv, hmod⟩ := index_div_mod h
  obtain ⟨⟨hup, -⟩, hleft, -⟩ := h
  constructor
  · rintro ⟨hr, hc⟩
    rw [index, ← Nat.div_add_mod i w.width, Nat.mul_comm]
    congr 2 <;> omega
  · rintro rfl
    omega

theorem col_lt (i : ℕ) : w.left + i % w.width < 80 := by
  have hmod := Nat.mod_lt i w.width_pos
  have hleft := w.left_le
  have hright := w.right_lt
  rw [width] at hmod ⊢
  omega

theorem index_next (h : w.Contains r c) (hlast : ¬(r = w.down ∧ c = w.right)) :
    w.index (w.next r c).1 (w.next r c).2 = w.index r c + 1 := by
  obtain ⟨⟨hup, -⟩, hleft, -⟩ := h
  rw [next, if_neg hlast]
  split_ifs with hborder
  · have hrow : r + 1 - w.up = (r - w.up) + 1 := by omega
    rw [index, index, hrow, Nat.add_mul, Nat.sub_self, hborder, width]
    omega
  · have hcol : c + 1 - w.left = (c - w.left) + 1 := by omega
    rw [index, index, hcol]
    rfl

theorem index_right_succ (hup : w.up ≤ r) : w.index r w.right + 1 = (r + 1 - w.up) * w.width := by
  have hrow : r + 1 - w.up = (r - w.up) + 1 := by omega
  rw [index, hrow, Nat.add_mul, Nat.one_mul, Nat.add_assoc]
  rfl

/-- A row ends where the next one starts. -/
theorem index_right (hup : w.up ≤ r) : w.index r (w.right + 1) = w.index (r + 1) w.left := by
  have hleft := w.left_le
  have hrow : r + 1 - w.up = (r - w.up) + 1 := by omega
  have hcol : w.right + 1 - w.left = w.width := by
    rw [width]
    omega
  rw [index, index, hrow, hcol, Nat.sub_self, Nat.add_mul, Nat.one_mul, Nat.add_zero]

theorem textFrom_length (w : Window) (start : ℕ) (t : Screen) :
    (w.textFrom start t).length = w.cursorIndex t - start := by
  rw [textFrom, List.length_map, List.length_range']

theorem textFrom_congr {start : ℕ} {n : ℕ} (ht : w.cursorIndex t' = start + n)
    (hcell : ∀ i, start ≤ i → i < start + n → w.cellAt t' i = w.cellAt t i) :
    w.textFrom start t' = (List.range' start n).map fun i => (w.cellAt t i).char := by
  rw [textFrom, ht, Nat.add_sub_cancel_left]
  apply List.map_congr_left
  intro i hi
  rw [List.mem_range'_1] at hi
  rw [hcell i hi.1 hi.2]

end Index

end Os2024.Terminal.Window
