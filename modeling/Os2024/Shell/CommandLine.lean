import Os2024.Shell.Path

/-! # Command lines

A command line is split at single spaces into a command and two arguments; what
stands behind them is not looked at.
-/

namespace Os2024.Shell

def StringN.image (str : StringN) : ℕ → UInt8 := fun i => str.chars.getD i 0

/-- What the shell has read from the keyboard without writing outside its buffer. -/
structure CommandLine where
  input : StringN
  len_le : input.len ≤ 255
  ne_zero : ∀ c ∈ input.chars, c ≠ 0

/-- A loop of `shell_input_handler`: the characters up to the next space, and what is behind it. -/
def readWord : List UInt8 → StringN → Except Fault (StringN × List UInt8)
  | [], arg => .ok (arg, [])
  | c :: input, arg =>
    if c = ' '.toUInt8 then .ok (arg, input)
    else match arg.appendchar c with
      | .error f => .error f
      | .ok arg => readWord input arg

structure Arguments where
  arg0 : StringN
  arg1 : StringN
  arg2 : StringN

/-- The first half of `shell_input_handler`. -/
def readArguments (input : StringN) : Except Fault Arguments := do
  let (arg0, input) ← readWord input.chars .create
  let (arg1, input) ← readWord input .create
  let (arg2, _) ← readWord input .create
  return ⟨arg0, arg1, arg2⟩

inductive CommandName where
  | cd
  | ls
  | mkdir
  | cat
  | cp
  | rm
  | mv
  | find
  | clear
  | okegas
  | ps
  | exec
  | kill
  | unknown
  deriving DecidableEq

/-- The comparisons of `shell_input_handler`. -/
def commandName (command : List UInt8) : CommandName :=
  if strcmp command (ascii "cd") then .cd
  else if strcmp command (ascii "ls") then .ls
  else if strcmp command (ascii "mkdir") then .mkdir
  else if strcmp command (ascii "cat") then .cat
  else if strcmp command (ascii "cp") then .cp
  else if strcmp command (ascii "rm") then .rm
  else if strcmp command (ascii "mv") then .mv
  else if strcmp command (ascii "find") then .find
  else if strcmp command (ascii "clear") then .clear
  else if strcmp command (ascii "okegas") then .okegas
  else if strcmp command (ascii "ps") then .ps
  else if strcmp command (ascii "exec") then .exec
  else if strcmp command (ascii "kill") then .kill
  else .unknown

def Arguments.command (a : Arguments) : CommandName := commandName a.arg0.buf

theorem readWord_eq {input : List UInt8} {arg : StringN} (h : arg.len + input.length ≤ 256) :
    readWord input arg = .ok (⟨arg.chars ++ input.takeWhile (· ≠ ' '.toUInt8)⟩,
      (input.dropWhile (· ≠ ' '.toUInt8)).tail) := by
  induction input generalizing arg with
  | nil => simp [readWord]
  | cons c input ih =>
    rw [List.length_cons] at h
    rw [readWord, List.takeWhile_cons, List.dropWhile_cons]
    by_cases hspace : c = ' '.toUInt8
    · simp [hspace]
    · have hlen : StringN.len ⟨arg.chars ++ [c]⟩ = arg.len + 1 := by
        rw [StringN.len_mk, List.length_append, List.length_singleton, StringN.len]
      rw [if_neg hspace, StringN.appendchar, if_pos (by omega)]
      dsimp only
      rw [ih (by omega)]
      simp [hspace]

theorem readWord_create {input : List UInt8} (h : input.length ≤ 256) :
    ∃ word rest, readWord input .create = .ok (⟨word⟩, rest) ∧
      word.length + rest.length ≤ input.length ∧ (∀ c ∈ word, c ∈ input) ∧ ∀ c ∈ rest, c ∈ input := by
  have hword := List.takeWhile_prefix (· ≠ ' '.toUInt8) (l := input)
  have hrest : (input.dropWhile (· ≠ ' '.toUInt8)).tail <:+ input :=
    (List.tail_suffix _).trans (List.dropWhile_suffix _)
  refine ⟨_, _, readWord_eq (by rwa [StringN.create, StringN.len_mk, List.length_nil, Nat.zero_add]),
    ?_, fun c hc => hword.subset hc, fun c hc => hrest.subset hc⟩
  have hlength := congrArg List.length (List.takeWhile_append_dropWhile (p := (· ≠ ' '.toUInt8))
    (l := input))
  rw [List.length_append] at hlength
  rw [List.length_tail]
  change (input.takeWhile _).length + _ ≤ _
  omega

/-- The arguments of a line: no longer than the line, and without NULs. -/
theorem readArguments_ok (line : CommandLine) : ∃ a, readArguments line.input = .ok a ∧
    ∀ arg ∈ [a.arg0, a.arg1, a.arg2], arg.len ≤ line.input.len ∧ ∀ c ∈ arg.chars, c ≠ 0 := by
  have hlen := line.len_le
  rw [StringN.len] at hlen
  obtain ⟨word₀, rest₀, heq₀, hlength₀, hword₀, hrest₀⟩ :=
    @readWord_create line.input.chars (by omega)
  obtain ⟨word₁, rest₁, heq₁, hlength₁, hword₁, hrest₁⟩ :=
    @readWord_create rest₀ (by omega)
  obtain ⟨word₂, rest₂, heq₂, hlength₂, hword₂, hrest₂⟩ :=
    @readWord_create rest₁ (by omega)
  refine ⟨⟨⟨word₀⟩, ⟨word₁⟩, ⟨word₂⟩⟩, ?_, ?_⟩
  · simp only [readArguments, heq₀, bind, Except.bind, heq₁, heq₂]
    rfl
  · simp only [List.mem_cons, List.not_mem_nil, or_false, forall_eq_or_imp, forall_eq,
      StringN.len]
    refine ⟨⟨by omega, ?_⟩, ⟨by omega, ?_⟩, by omega, ?_⟩
    · exact fun c hc => line.ne_zero c (hword₀ c hc)
    · exact fun c hc => line.ne_zero c (hrest₀ c (hword₁ c hc))
    · exact fun c hc => line.ne_zero c (hrest₀ c (hrest₁ c (hword₂ c hc)))

end Os2024.Shell
