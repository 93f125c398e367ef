import Os2024.Shell.CommandLine

/-! # The counters of the tokenizer

The three loops of `shell_input_handler` count on from one another: the second one
starts one place behind the space at which the first one has stopped, the third one
behind that of the second. Where there was no space they start behind the end of the
input.
-/

namespace Os2024.Shell

/-- `for (n = ..; base + n < input.len && input.buf[base + n] != ' '; n++)
stringn_appendchar(&arg, input.buf[base + n]);` with the positions that are read. -/
def scanLoop (input : StringN) (base : UInt32) :
    ℕ → UInt32 → StringN → List UInt32 → Except Fault (UInt32 × StringN × List UInt32)
  | 0, _, _, _ => .error .diverges
  | fuel + 1, n, arg, reads =>
    if base + n < input.len.toUInt32 then
      let c := input.image (base + n).toNat
      if c ≠ ' '.toUInt8 then
        match arg.appendchar c with
        | .error f => .error f
        | .ok arg => scanLoop input base fuel (n + 1) arg (reads ++ [base + n, base + n])
      else .ok (n, arg, reads ++ [base + n])
    else .ok (n, arg, reads)

/-- The arguments of `shell_input_handler`, and all positions of `input.buf` that it reads for them. -/
def scanArguments (input : StringN) : Except Fault (Arguments × List UInt32) := do
  let (i, arg0, reads) ← scanLoop input 0 (input.len + 1) 0 .create []
  let (j, arg1, reads) ← scanLoop input i (input.len + 1) 1 .create reads
  let (_, arg2, reads) ← scanLoop input (i + j) (input.len + 1) 1 .create reads
  return (⟨arg0, arg1, arg2⟩, reads)

section Fields
variable {α : Type*} (l : List α)

theorem drop_length_takeWhile_succ (p : α → Bool) :
    l.drop ((l.takeWhile p).length + 1) = (l.dropWhile p).tail := by
  rw [← List.tail_drop]
  conv_lhs =>
    enter [1, 2]
    rw [← List.takeWhile_append_dropWhile (p := p) (l := l)]
  rw [List.drop_left]

variable [DecidableEq α] (a : α)

/-- Either there is no separator, or the first field ends at the first one. -/
theorem splitOn_eq : l.splitOn a =
    if l.dropWhile (· ≠ a) = [] then [l]
    else l.takeWhile (· ≠ a) :: (l.dropWhile (· ≠ a)).tail.splitOn a := by
  have happend := List.takeWhile_append_dropWhile (p := (· ≠ a)) (l := l)
  split_ifs with hdrop
  · apply List.splitOn_eq_singleton
    intro hmem
    simpa using List.dropWhile_eq_nil_iff.mp hdrop a hmem
  · obtain ⟨x, rest, hrest⟩ := List.exists_cons_of_ne_nil hdrop
    have hx : x = a := by
      have hhead := List.head?_dropWhile_not (· ≠ a) l
      rw [hrest] at hhead
      simpa using hhead
    have hfirst : a ∉ l.takeWhile (· ≠ a) := fun hmem => by
      simpa using List.mem_takeWhile_imp hmem
    rw [hrest, hx] at happend
    rw [hrest, List.tail_cons]
    calc l.splitOn a = (l.takeWhile (· ≠ a) ++ a :: rest).splitOn a := by rw [happend]
      _ = (l.takeWhile (· ≠ a)).splitOn a ++ rest.splitOn a :=
        List.splitOn_append_cons_self _ _
      _ = l.takeWhile (· ≠ a) :: rest.splitOn a := by rw [List.splitOn_eq_singleton hfirst]; rfl

theorem getD_splitOn_zero : (l.splitOn a).getD 0 [] = l.takeWhile (· ≠ a) := by
  rw [splitOn_eq]
  split_ifs with hdrop
  · have hall := List.takeWhile_append_dropWhile (p := (· ≠ a)) (l := l)
    rw [hdrop, List.append_nil] at hall
    simpa using hall.symm
  · rfl

theorem getD_splitOn_succ (k : ℕ) :
    (l.splitOn a).getD (k + 1) [] = ((l.dropWhile (· ≠ a)).tail.splitOn a).getD k [] := by
  rw [splitOn_eq]
  split_ifs with hdrop
  · rw [hdrop]
    cases k <;> rfl
  · rfl

end Fields

section Loops
variable {input : StringN} {base n : UInt32}

def wordAt (input : StringN) (pos : ℕ) : List UInt8 :=
  (input.chars.drop pos).takeWhile (· ≠ ' '.toUInt8)

theorem wordAt_length_le (input : StringN) (pos : ℕ) :
    (wordAt input pos).length ≤ input.len - pos := by
  have hle := (List.takeWhile_prefix (· ≠ ' '.toUInt8) (l := input.chars.drop pos)).length_le
  rwa [List.length_drop] at hle

theorem wordAt_eq (input : StringN) (pos : ℕ) : wordAt input pos =
    if pos < input.len then
      if input.image pos ≠ ' '.toUInt8 then input.image pos :: wordAt input (pos + 1) else []
    else [] := by
  rw [wordAt]
  by_cases hpos : pos < input.len
  · have hchar : input.image pos = input.chars[pos] := List.getD_eq_getElem _ _ hpos
    rw [if_pos hpos, List.drop_eq_getElem_cons hpos, List.takeWhile_cons, hchar]
    simp [wordAt]
  · rw [if_neg hpos, List.drop_eq_nil_of_le (not_lt.mp hpos)]
    rfl

/-- As long as the counters are small, a loop goes on to the next space or the end of the input, and
reads nothing behind the end. -/
theorem scanLoop_ok {fuel : ℕ} {arg : StringN} {reads : List UInt32} (hlen : input.len ≤ 255)
    (hcounter : base.toNat + n.toNat ≤ 1000) (hfuel : input.len - (base.toNat + n.toNat) < fuel)
    (harg : arg.len + (input.len - (base.toNat + n.toNat)) ≤ 256) :
    ∃ n' positions, scanLoop input base fuel n arg reads =
        .ok (n', ⟨arg.chars ++ wordAt input (base.toNat + n.toNat)⟩, reads ++ positions) ∧
      n'.toNat = n.toNat + (wordAt input (base.toNat + n.toNat)).length ∧
      ∀ pos ∈ positions, pos.toNat < input.len := by
  induction fuel generalizing n arg reads with
  | zero => omega
  | succ fuel ih =>
    have hpos : (base + n).toNat = base.toNat + n.toNat := by
      rw [UInt32.toNat_add]
      omega
    have hcond : base + n < input.len.toUInt32 ↔ base.toNat + n.toNat < input.len := by
      rw [UInt32.lt_iff_toNat_lt, hpos, UInt32.toNat_ofNat']
      simp
      omega
    rw [wordAt_eq, scanLoop, hpos]
    simp only [hcond]
    split_ifs with hin hspace
    · have hsucc : (n + 1).toNat = n.toNat + 1 := by
        rw [UInt32.toNat_add]
        simp
        omega
      have happend : (StringN.len ⟨arg.chars ++ [input.image (base.toNat + n.toNat)]⟩) =
          arg.len + 1 := by
        rw [StringN.len_mk, List.length_append, List.length_singleton, StringN.len]
      rw [StringN.appendchar, if_pos (by omega)]
      obtain ⟨n', positions, hok, hn', hreads⟩ := @ih (n + 1)
        ⟨arg.chars ++ [input.image (base.toNat + n.toNat)]⟩ (reads ++ [base + n, base + n])
        (by omega) (by omega) (by omega)
      rw [hsucc, ← Nat.add_assoc] at hok hn'
      refine ⟨n', [base + n, base + n] ++ positions, ?_, ?_, ?_⟩
      · simpa using hok
      · rw [hn', List.length_cons]
        omega
      · intro pos hmem
        rcases List.mem_append.mp hmem with hmem | hmem
        · simp only [List.mem_cons, List.not_mem_nil, or_false, or_self] at hmem
          rwa [hmem, hpos]
        · exact hreads pos hmem
    · refine ⟨n, [base + n], by simp, rfl, ?_⟩
      simpa [hpos] using hin
    · exact ⟨n, [], by simp, rfl, by simp⟩

def fieldsAt (input : StringN) (pos : ℕ) : List (List UInt8) :=
  (input.chars.drop pos).splitOn ' '.toUInt8

theorem fieldsAt_zero (input : StringN) (pos : ℕ) :
    (fieldsAt input pos).getD 0 [] = wordAt input pos := getD_splitOn_zero _ _

theorem fieldsAt_succ (input : StringN) (pos k : ℕ) : (fieldsAt input pos).getD (k + 1) [] =
    (fieldsAt input (pos + (wordAt input pos).length + 1)).getD k [] := by
  rw [fieldsAt, getD_splitOn_succ, ← drop_length_takeWhile_succ, List.drop_drop, fieldsAt,
    Nat.add_assoc]
  rfl

theorem scanArguments_ok (hlen : input.len ≤ 255) :
    ∃ a reads, scanArguments input = .ok (a, reads) ∧
      (∀ pos ∈ reads, pos.toNat < input.len) ∧
      a.arg0.chars = (fieldsAt input 0).getD 0 [] ∧
      a.arg1.chars = (fieldsAt input 0).getD 1 [] ∧
      a.arg2.chars = (fieldsAt input 0).getD 2 [] := by
  have hzero : (0 : UInt32).toNat = 0 := rfl
  have hone : (1 : UInt32).toNat = 1 := rfl
  have hcreate : StringN.create.len = 0 := rfl
  obtain ⟨i, reads₀, hok₀, hi, hreads₀⟩ := @scanLoop_ok input 0 0 (input.len + 1) .create [] hlen
    (by omega) (by omega) (by omega)
  rw [hzero, Nat.add_zero] at hok₀ hi
  rw [Nat.zero_add] at hi
  have hi_le := wordAt_length_le input 0
  obtain ⟨j, reads₁, hok₁, hj, hreads₁⟩ := @scanLoop_ok input i 1 (input.len + 1) .create
    ([] ++ reads₀) hlen (by omega) (by omega) (by omega)
  rw [hone] at hok₁ hj
  have hj_le := wordAt_length_le input (i.toNat + 1)
  have hij : (i + j).toNat = i.toNat + j.toNat := by
    rw [UInt32.toNat_add]
    omega
  obtain ⟨k, reads₂, hok₂, -, hreads₂⟩ := @scanLoop_ok input (i + j) 1 (input.len + 1) .create
    ([] ++ reads₀ ++ reads₁) hlen (by omega) (by omega) (by omega)
  rw [hone, hij] at hok₂
  refine ⟨⟨⟨wordAt input 0⟩, ⟨wordAt input (i.toNat + 1)⟩, ⟨wordAt input (i.toNat + j.toNat + 1)⟩⟩,
    reads₀ ++ reads₁ ++ reads₂, ?_, ?_, ?_, ?_, ?_⟩
  · rw [scanArguments, hok₀]
    simp only [bind, Except.bind]
    rw [hok₁]
    dsimp only
    rw [hok₂]
    rfl
  · simp only [List.mem_append]
    rintro pos ((hpos | hpos) | hpos)
    · exact hreads₀ pos hpos
    · exact hreads₁ pos hpos
    · exact hreads₂ pos hpos
  · exact (fieldsAt_zero input 0).symm
  · rw [fieldsAt_succ, fieldsAt_zero, Nat.zero_add, ← hi]
  · have hsecond : i.toNat + 1 + (wordAt input (i.toNat + 1)).length + 1 =
        i.toNat + j.toNat + 1 := by omega
    rw [fieldsAt_succ, fieldsAt_succ, fieldsAt_zero, Nat.zero_add, ← hi, hsecond]

end Loops

/-- The loops over positions and those over what is left of the input find the same arguments. -/
theorem scanArguments_eq_readArguments {input : StringN} (hlen : input.len ≤ 255) :
    (scanArguments input).map Prod.fst = readArguments input := by
  obtain ⟨⟨⟨chars₀⟩, ⟨chars₁⟩, ⟨chars₂⟩⟩, reads, hok, -, h0, h1, h2⟩ := scanArguments_ok hlen
  have hrest : ∀ pos, (input.chars.drop (pos + (wordAt input pos).length + 1)) =
      ((input.chars.drop pos).dropWhile (· ≠ ' '.toUInt8)).tail := by
    intro pos
    rw [← drop_length_takeWhile_succ, List.drop_drop, Nat.add_assoc]
    rfl
  have hread : ∀ pos, readWord (input.chars.drop pos) .create =
      .ok (⟨wordAt input pos⟩, input.chars.drop (pos + (wordAt input pos).length + 1)) := by
    intro pos
    rw [readWord_eq, hrest]
    · rfl
    · rw [StringN.create, StringN.len_mk, List.length_nil, List.length_drop, ← StringN.len]
      omega
  have hfirst : readWord input.chars .create = _ := hread 0
  rw [fieldsAt_zero] at h0
  rw [fieldsAt_succ, fieldsAt_zero] at h1
  rw [fieldsAt_succ, fieldsAt_succ, fieldsAt_zero] at h2
  obtain rfl := h0
  obtain rfl := h1
  obtain rfl := h2
  rw [hok, readArguments, hfirst]
  simp only [bind, Except.bind, hread]
  rfl

/-- For every command line the loops find the first three fields between single spaces, and no
position is read at which the line has ended. -/
theorem scanArguments_fields (line : CommandLine) :
    ∃ a reads, scanArguments line.input = .ok (a, reads) ∧
      a.arg0.chars = (line.input.chars.splitOn ' '.toUInt8).getD 0 [] ∧
      a.arg1.chars = (line.input.chars.splitOn ' '.toUInt8).getD 1 [] ∧
      a.arg2.chars = (line.input.chars.splitOn ' '.toUInt8).getD 2 [] ∧
      ∀ pos ∈ reads, pos.toNat < line.input.len := by
  obtain ⟨a, reads, hok, hreads, h0, h1, h2⟩ := scanArguments_ok line.len_le
  exact ⟨a, reads, hok, h0, h1, h2, hreads⟩

end Os2024.Shell
