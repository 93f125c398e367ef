import Os2024.Shell.BufferRuns
import Os2024.Shell.GuardedSessions
import Os2024.Shell.Requests
import Os2024.Shell.Typing

/-! # The main loop of the shell

Every turn of the loop looks at one key. The strings of the shell have no bound of
their own: they stay within their buffers as long as the keys and the directories
do not lead them out.
-/

namespace Os2024.Shell
open Library.PackedLayout Library.CallTrees Library.StepwiseRuns
open FileSystem Terminal

namespace StringN
variable {str str' : StringN}

/-- There is room for the NUL, and it is there. -/
structure Proper (str : StringN) : Prop where
  len_le : str.len ≤ 255
  terminated : str.image str.len = 0

/-- `memset(str->buf, '\0', 256);` -/
theorem image_create : create.image = fun _ => 0 := rfl

/-- `str->buf[str->len] = c;` -/
theorem image_appendchar {c : UInt8} (h : str.appendchar c = .ok str') :
    str'.image = Function.update str.image str.len c := by
  rw [appendchar] at h
  split_ifs at h
  obtain rfl := Except.ok.inj h
  funext i
  by_cases hi : i = str.len
  · subst hi
    simp [image, len, List.getD_eq_getElem?_getD]
  · rw [Function.update_of_ne hi, image, image]
    rw [len] at hi
    rcases Nat.lt_or_gt_of_ne hi with hlt | hgt
    · rw [List.getD_append _ _ _ _ hlt]
    · rw [List.getD_eq_default _ _ (by simp; omega), List.getD_eq_default _ _ (by omega)]

/-- `buf[len - 1] = '\0';` -/
theorem image_removeLast (h : str.removeLast = .ok str') :
    str'.image = Function.update str.image (str.len - 1) 0 := by
  rw [removeLast] at h
  split_ifs at h with hlen
  obtain rfl := Except.ok.inj h
  funext i
  by_cases hi : i = str.len - 1
  · subst hi
    rw [Function.update_self, image, List.getD_eq_default]
    simp [len]
  · rw [Function.update_of_ne hi, image, image, List.getD_eq_getElem?_getD,
      List.getD_eq_getElem?_getD, List.getElem?_dropLast]
    split_ifs with hlt
    · rfl
    · rw [len] at hi hlen
      rw [List.getElem?_eq_none (by omega)]

theorem proper_iff : str.Proper ↔ str.len ≤ 255 := by
  constructor
  · exact Proper.len_le
  · exact fun h => ⟨h, List.getD_eq_default _ _ le_rfl⟩

/-- The index `len - 1`, as the code computes it. -/
def lastIndex (str : StringN) : UInt32 := str.len.toUInt32 - 1

end StringN

/-- What the main loop works on; `system` is what its system calls work on. -/
structure MainState extends Typing where
  globals : Globals
  system : System

/-- The keyboard's answers in one turn of the loop, and all that the turn finds in memory or on the
screen without having put it there. `drawn` is the screen behind what the turn prints, other than
the key itself. -/
structure Turn where
  pressCtrl : Bool
  buf : UInt8
  slots : Slots
  drawn : Screen
  fuel : ℕ
  stack : Memory
  srcBuf : UInt32
  request : Bytes 23

inductive Branch where
  | idle
  | opening
  | closing
  | enter
  | backspace
  | char
  deriving DecidableEq

/-- Logic depending on whether shell is open or not. -/
def Turn.branch (turn : Turn) (isOpen : Bool) : Branch :=
  if !isOpen then
    if turn.pressCtrl && turn.buf = 's'.toUInt8 then .opening else .idle
  else if turn.pressCtrl && turn.buf = 's'.toUInt8 then .closing
  else if turn.buf = '\n'.toUInt8 then .enter
  else if turn.buf = '\x08'.toUInt8 then .backspace
  else if turn.buf ≠ 0 then .char
  else .idle

/-- What `shell_input_handler` calls. The other commands change neither the globals nor the disk. -/
def Turn.handler (turn : Turn) (a : Arguments) : List Command :=
  match a.command with
  | .cd => [.cd a.arg1]
  | .mkdir => [.mkdir a.arg1]
  | .cp => [.cp a.arg1 a.arg2 turn.stack turn.srcBuf]
  | .rm => [.rm a.arg1]
  | .mv => [.mv a.arg1 a.arg2]
  | .find => [.find a.arg1]
  | .clear => [.prompt]
  | _ => []

/-- `cat` and `exec` copy a name of any length into a request on the stack. -/
def Arguments.filled (a : Arguments) (request : Bytes 23) : Except Fault (Bytes 23) :=
  if a.command = .cat ∨ a.command = .exec then fillName a.arg1 256 0 request else .ok request

def Turn.commands (turn : Turn) (σ : MainState) : List Command :=
  match turn.branch σ.status.isOpen with
  | .opening => [.prompt]
  | .enter =>
    match readArguments σ.shellInput with
    | .ok a => turn.handler a ++
        if !strcmp σ.shellInput.buf (ascii "clear") then [.prompt] else []
    | .error _ => []
  | _ => []

def commandStep (fuel : ℕ) (x : Except Fault (Globals × System)) (cmd : Command) :
    Except Fault (Globals × System) := x.bind fun (sh, s) => run (cmd.exec fuel sh) s

def Turn.runCommands (turn : Turn) (σ : MainState) : Except Fault (Globals × System) :=
  (turn.commands σ).foldl (commandStep turn.fuel) (.ok (σ.globals, σ.system))

def Turn.prompted (turn : Turn) (x : Globals × System) (σ : MainState) : MainState :=
  { σ with
    screen := turn.drawn
    status := { σ.status with delLimit := turn.drawn.keyboard.col }
    globals := x.1
    system := x.2 }

/-- `shell_row` and `shell_input` are set anew behind a command line only. -/
def Turn.entered (turn : Turn) (σ : MainState) : MainState :=
  { σ with
    status := { σ.status with shellRow := turn.drawn.keyboard.row }
    shellInput := .create }

/-- One turn of the loop. -/
def Turn.next (turn : Turn) (σ : MainState) : Except Fault MainState :=
  match turn.branch σ.status.isOpen with
  | .idle => .ok σ
  | .opening => do
    let x ← turn.runCommands σ
    return turn.prompted x { σ with status := { σ.status with isOpen := true } }
  | .closing => .ok { σ with
      screen := turn.drawn
      status := { σ.status with isOpen := false } }
  | .enter => do
    let a ← readArguments σ.shellInput
    let _ ← a.filled turn.request
    let x ← turn.runCommands σ
    return turn.entered (turn.prompted x σ)
  | .backspace => do
    let x ← backspaceKey turn.pressCtrl turn.slots σ.toTyping
    return { σ with toTyping := x }
  | .char => do
    let x ← charKey turn.buf σ.toTyping
    return { σ with toTyping := x }

def turnStep (y : Except Fault MainState) (turn : Turn) : Except Fault MainState := y.bind turn.next

def eraseIndices (pressCtrl : Bool) (slots : Slots) : ℕ → Typing → List UInt32
  | 0, _ => []
  | fuel + 1, x =>
    match putchar '\x08'.toUInt8 x.screen with
    | .error _ => []
    | .ok _ => x.shellInput.lastIndex :: StringN.lastIndex ⟨x.shellInput.chars.dropLast⟩ ::
      match erasePass slots x with
      | .error _ => []
      | .ok (x, c) => if goesOn pressCtrl slots x c then eraseIndices pressCtrl slots fuel x else []

def Turn.indices (turn : Turn) (σ : MainState) : List UInt32 :=
  match turn.branch σ.status.isOpen with
  | .enter => (List.range σ.shellInput.len).map Nat.toUInt32
  | .backspace =>
    if beyondLimit turn.slots σ.toTyping then
      σ.shellInput.lastIndex ::
        eraseIndices turn.pressCtrl turn.slots (σ.shellInput.len + 1) σ.toTyping
    else []
  | .char => [σ.shellInput.len.toUInt32]
  | _ => []

/-- The strings between two turns; the input holds no NUL in front of its end. -/
structure MainState.Proper (σ : MainState) : Prop where
  shellInput : σ.shellInput.Proper
  ne_zero : ∀ c ∈ σ.shellInput.chars, c ≠ 0
  currentDirPath : σ.globals.currentDirPath.Proper
  rootDirPath : σ.globals.rootDirPath.Proper

def Watched.Kept (fuel : ℕ) (x : Except Fault (Globals × System)) (cmd : Command) : Prop :=
  ∀ sh s, x = .ok (sh, s) →
    (Watched.exec fuel sh cmd).run (Program.watchExec Syscall.exec) s ≠ .error none

/-- Within the turn: all indices are in the buffer, the arguments are proper, no name is stored
behind its request, and no path that a command builds leaves its buffer. -/
structure Turn.Sound (turn : Turn) (σ : MainState) : Prop where
  indices : ∀ i ∈ turn.indices σ, i < 256
  arguments : turn.branch σ.status.isOpen = .enter → ∃ a, readArguments σ.shellInput = .ok a ∧
    (∀ arg ∈ [a.arg0, a.arg1, a.arg2], arg.Proper) ∧ ∃ r, a.filled turn.request = .ok r
  paths : Along (commandStep turn.fuel) (Watched.Kept turn.fuel) (turn.commands σ)
    (.ok (σ.globals, σ.system))

def backspaces : ℕ → Screen → Except Fault Screen
  | 0, t => .ok t
  | k + 1, t => (putchar '\x08'.toUInt8 t).bind (backspaces k)

/-- The loop for backspaces comes to its end while the input still has a character: after `k`
passes Ctrl is released, or a space is in front of the cursor, or the cursor is at its limit. -/
def Turn.LeavesChar (turn : Turn) (x : Typing) : Prop :=
  ∃ k, 0 < k ∧ k < x.shellInput.len ∧ ∀ t, backspaces k x.screen = .ok t →
    goesOn turn.pressCtrl turn.slots { x with screen := t }
      (x.shellInput.image (x.shellInput.len - k - 1)) = false

def Turn.PathsFit (turn : Turn) (σ : MainState) : Prop :=
  Along (commandStep turn.fuel) (fun x cmd => ∀ sh s, x = .ok (sh, s) → cmd.Fits s.storage sh)
    (turn.commands σ) (.ok (σ.globals, σ.system))

/-- The turns that lead no string out of its buffer. -/
structure Turn.Permitted (turn : Turn) (σ : MainState) : Prop where
  char : turn.branch σ.status.isOpen = .char → σ.shellInput.len < 255
  backspace : turn.branch σ.status.isOpen = .backspace → beyondLimit turn.slots σ.toTyping →
    turn.LeavesChar σ.toTyping
  request : turn.branch σ.status.isOpen = .enter → ∀ a, readArguments σ.shellInput = .ok a →
    a.command = .cat ∨ a.command = .exec → a.arg1.len ≤ 19
  paths : turn.PathsFit σ

def Sounds (y : Except Fault MainState) (turn : Turn) : Prop := ∀ σ, y = .ok σ → turn.Sound σ

def Permits (y : Except Fault MainState) (turn : Turn) : Prop := ∀ σ, y = .ok σ → turn.Permitted σ

section Erase
variable {pressCtrl : Bool} {slots : Slots} {x x' : Typing} {c : UInt8} {t : Screen}

theorem StringN.lastIndex_lt {str : StringN} (hlen : str.len ≠ 0) (hproper : str.len ≤ 255) :
    str.lastIndex < 256 := by
  have hle : (1 : UInt32) ≤ str.len.toUInt32 := by
    rw [UInt32.le_iff_toNat_le, UInt32.toNat_ofNat']
    simp
    omega
  rw [StringN.lastIndex, UInt32.lt_iff_toNat_lt, UInt32.toNat_sub_of_le _ _ hle, UInt32.toNat_ofNat']
  simp
  omega

theorem StringN.image_dropLast {chars : List UInt8} {i : ℕ} (hi : i < chars.length - 1) :
    StringN.image ⟨chars.dropLast⟩ i = StringN.image ⟨chars⟩ i := by
  rw [image, image, List.getD_eq_getElem?_getD, List.getD_eq_getElem?_getD, List.getElem?_dropLast,
    if_pos hi]

theorem erasePass_eq (hlen : 1 < x.shellInput.len) (hput : putchar '\x08'.toUInt8 x.screen = .ok t) :
    erasePass slots x = .ok ({ x with screen := t, shellInput := ⟨x.shellInput.chars.dropLast⟩ },
      x.shellInput.image (x.shellInput.len - 1 - 1)) := by
  have hlast : StringN.lastChar slots.below ⟨x.shellInput.chars.dropLast⟩ =
      .ok (x.shellInput.image (x.shellInput.len - 1 - 1)) := by
    have hlen' := hlen
    rw [StringN.len] at hlen'
    rw [StringN.lastChar, List.getLast?_eq_getElem?, List.length_dropLast, List.getElem?_dropLast,
      if_pos (by omega), StringN.image, List.getD_eq_getElem?_getD, StringN.len,
      List.getElem?_eq_getElem (by omega)]
    rfl
  rw [erasePass, hput, StringN.removeLast, if_neg (by omega)]
  simp only [bind, Except.bind, hlast]
  rfl

theorem of_bind_ok {α β : Type} {y : Except Fault α} {f : α → Except Fault β} {b : β}
    (h : y >>= f = .ok b) : ∃ a, y = .ok a ∧ f a = .ok b := by
  cases y with
  | error f => cases h
  | ok a => exact ⟨a, rfl, h⟩

theorem erasePass_chars (h : erasePass slots x = .ok (x', c)) :
    x'.shellInput.chars = x.shellInput.chars.dropLast := by
  rw [erasePass] at h
  obtain ⟨screen, -, h⟩ := of_bind_ok h
  obtain ⟨str, hremove, h⟩ := of_bind_ok h
  obtain ⟨c', -, h⟩ := of_bind_ok h
  rw [StringN.removeLast] at hremove
  split_ifs at hremove
  obtain rfl := Except.ok.inj hremove
  obtain ⟨rfl, -⟩ := Prod.mk.inj (Except.ok.inj h)
  rfl

/-- Nothing but characters at the end goes. -/
theorem eraseLoop_prefix {fuel : ℕ} (h : eraseLoop pressCtrl slots fuel x = .ok x') :
    x'.shellInput.chars <+: x.shellInput.chars := by
  induction fuel generalizing x with
  | zero => cases h
  | succ fuel ih =>
    rw [eraseLoop] at h
    obtain ⟨⟨y, c⟩, hpass, h⟩ := of_bind_ok h
    have hchars : y.shellInput.chars <+: x.shellInput.chars := by
      rw [erasePass_chars hpass]
      exact List.dropLast_prefix _
    dsimp only at h
    split_ifs at h
    · exact (ih h).trans hchars
    · obtain rfl := Except.ok.inj h
      exact hchars

theorem backspaceKey_prefix (h : backspaceKey pressCtrl slots x = .ok x') :
    x'.shellInput.chars <+: x.shellInput.chars := by
  rw [backspaceKey] at h
  split_ifs at h
  · obtain ⟨c, -, h⟩ := of_bind_ok h
    exact eraseLoop_prefix h
  · obtain rfl := Except.ok.inj h
    exact List.prefix_refl _

theorem eraseIndices_lt (fuel : ℕ) (hproper : x.shellInput.len ≤ 255) {k : ℕ} (hk : 0 < k)
    (hlen : k < x.shellInput.len) (hstop : ∀ t, backspaces k x.screen = .ok t →
      goesOn pressCtrl slots { x with screen := t }
        (x.shellInput.image (x.shellInput.len - k - 1)) = false) :
    ∀ i ∈ eraseIndices pressCtrl slots fuel x, i < 256 := by
  induction fuel generalizing x k with
  | zero => simp [eraseIndices]
  | succ fuel ih =>
    cases hput : putchar '\x08'.toUInt8 x.screen with
    | error f => simp [eraseIndices, hput]
    | ok t =>
      have hdrop : StringN.len ⟨x.shellInput.chars.dropLast⟩ = x.shellInput.len - 1 :=
        List.length_dropLast
      have hfirst : x.shellInput.lastIndex < 256 := StringN.lastIndex_lt (by omega) hproper
      have hsecond : StringN.lastIndex ⟨x.shellInput.chars.dropLast⟩ < 256 :=
        StringN.lastIndex_lt (by omega) (by omega)
      rw [eraseIndices, hput, erasePass_eq (by omega) hput]
      simp only [List.forall_mem_cons]
      refine ⟨hfirst, hsecond, ?_⟩
      obtain ⟨k, rfl⟩ := Nat.exists_eq_succ_of_ne_zero hk.ne'
      have hback : backspaces (k + 1) x.screen = backspaces k t := by
        rw [backspaces, hput]
        rfl
      rcases Nat.eq_zero_or_pos k with rfl | hk
      · -- the last pass
        have hends := hstop t hback
        have hgoes : goesOn pressCtrl slots
            { x with screen := t, shellInput := ⟨x.shellInput.chars.dropLast⟩ }
            (x.shellInput.image (x.shellInput.len - 1 - 1)) = false := hends
        rw [hgoes]
        simp
      · split_ifs
        · apply ih (by dsimp only; omega) hk (by dsimp only; omega)
          intro t' ht'
          have hindex : x.shellInput.len - 1 - k - 1 = x.shellInput.len - (k + 1) - 1 := by omega
          rw [hdrop, StringN.image_dropLast (by
            rw [← StringN.len]
            omega), hindex]
          exact hstop t' (hback.trans ht')
        · simp

end Erase

section Commands
variable {fuel : ℕ} {x : Except Fault (Globals × System)} {rootDirPath : StringN}

/-- The paths among the globals, as long as no command has failed. -/
def Held (rootDirPath : StringN) (x : Except Fault (Globals × System)) : Prop :=
  ∀ sh s, x = .ok (sh, s) → sh.currentDirPath.len ≤ 255 ∧ sh.rootDirPath = rootDirPath

theorem kept_of_fits {cmd : Command} (hx : Held rootDirPath x)
    (hfit : ∀ sh s, x = .ok (sh, s) → cmd.Fits s.storage sh) : Watched.Kept fuel x cmd := by
  intro sh s hok
  exact (exec_passes fuel (hfit sh s hok) (hx sh s hok).1).not_stopped

theorem commandStep_held {cmd : Command} (hx : Held rootDirPath x)
    (hfit : ∀ sh s, x = .ok (sh, s) → cmd.Fits s.storage sh) :
    Held rootDirPath (commandStep fuel x cmd) := by
  intro sh' s' hstep
  cases x with
  | error f => cases hstep
  | ok x =>
    obtain ⟨hpath, hroot⟩ := hx x.1 x.2 rfl
    obtain ⟨hpath', hroot'⟩ := (exec_follows fuel x.1 cmd).of_passes
      (exec_passes fuel (hfit x.1 x.2 rfl) hpath) hstep
    exact ⟨hpath', hroot'.trans hroot⟩

end Commands

section Turns
variable {turn : Turn} {σ σ' : MainState}

theorem MainState.Proper.held (h : σ.Proper) :
    Held σ.globals.rootDirPath (.ok (σ.globals, σ.system)) := by
  rintro sh s heq
  obtain ⟨rfl, rfl⟩ := Prod.mk.inj (Except.ok.inj heq)
  exact ⟨h.currentDirPath.len_le, rfl⟩

/-- Behind the commands of a turn the paths are proper. -/
theorem runCommands_proper (h : σ.Proper) (hfit : turn.PathsFit σ) {x : Globals × System}
    (hrun : turn.runCommands σ = .ok x) :
    x.1.currentDirPath.Proper ∧ x.1.rootDirPath.Proper := by
  obtain ⟨hpath, hroot⟩ := hfit.invariant h.held (fun _ _ => commandStep_held) x.1 x.2 hrun
  refine ⟨StringN.proper_iff.mpr hpath, ?_⟩
  rw [hroot]
  exact h.rootDirPath

def MainState.Proper.commandLine (h : σ.Proper) : CommandLine :=
  ⟨σ.shellInput, h.shellInput.len_le, h.ne_zero⟩

theorem MainState.Proper.withTyping (h : σ.Proper) {x : Typing} (hlen : x.shellInput.len ≤ 255)
    (hchars : ∀ c ∈ x.shellInput.chars, c ≠ 0) : ({ σ with toTyping := x } : MainState).Proper :=
  ⟨StringN.proper_iff.mpr hlen, hchars, h.currentDirPath, h.rootDirPath⟩

theorem Turn.buf_ne_zero {isOpen : Bool} (h : turn.branch isOpen = .char) : turn.buf ≠ 0 := by
  rw [Turn.branch] at h
  split_ifs at h with _ _ _ _ _ hne
  exact hne

/-- A permitted turn leaves the strings proper. -/
theorem next_proper (h : σ.Proper) (hp : turn.Permitted σ) (hnext : turn.next σ = .ok σ') :
    σ'.Proper := by
  cases hbranch : turn.branch σ.status.isOpen with
  | idle =>
    simp only [Turn.next, hbranch] at hnext
    obtain rfl := Except.ok.inj hnext
    exact h
  | opening =>
    simp only [Turn.next, hbranch] at hnext
    obtain ⟨x, hrun, hnext⟩ := of_bind_ok hnext
    obtain rfl := Except.ok.inj hnext
    obtain ⟨hcurrent, hroot⟩ := runCommands_proper h hp.paths hrun
    exact ⟨h.shellInput, h.ne_zero, hcurrent, hroot⟩
  | closing =>
    simp only [Turn.next, hbranch] at hnext
    obtain rfl := Except.ok.inj hnext
    exact ⟨h.shellInput, h.ne_zero, h.currentDirPath, h.rootDirPath⟩
  | enter =>
    simp only [Turn.next, hbranch] at hnext
    obtain ⟨a, -, hnext⟩ := of_bind_ok hnext
    obtain ⟨_, -, hnext⟩ := of_bind_ok hnext
    obtain ⟨x, hrun, hnext⟩ := of_bind_ok hnext
    obtain rfl := Except.ok.inj hnext
    obtain ⟨hcurrent, hroot⟩ := runCommands_proper h hp.paths hrun
    exact ⟨StringN.proper_iff.mpr (Nat.zero_le _), by simp [Turn.entered, StringN.create], hcurrent,
      hroot⟩
  | backspace =>
    simp only [Turn.next, hbranch] at hnext
    obtain ⟨x, hback, hnext⟩ := of_bind_ok hnext
    obtain rfl := Except.ok.inj hnext
    have hbegin := backspaceKey_prefix hback
    apply h.withTyping
    · exact hbegin.length_le.trans h.shellInput.len_le
    · exact fun c hc => h.ne_zero c (hbegin.subset hc)
  | char =>
    simp only [Turn.next, hbranch] at hnext
    obtain ⟨x, hchar, hnext⟩ := of_bind_ok hnext
    obtain rfl := Except.ok.inj hnext
    have hlen := hp.char hbranch
    rw [charKey] at hchar
    obtain ⟨screen, -, hchar⟩ := of_bind_ok hchar
    rw [StringN.appendchar, if_pos (by omega)] at hchar
    obtain rfl := Except.ok.inj hchar
    apply h.withTyping
    · simp only [StringN.len_mk, List.length_append, List.length_singleton]
      exact hlen
    · intro c hc
      rcases List.mem_append.mp hc with hc | hc
      · exact h.ne_zero c hc
      · rw [List.mem_singleton.mp hc]
        exact Turn.buf_ne_zero hbranch

theorem toUInt32_lt {n : ℕ} (h : n < 256) : n.toUInt32 < 256 := by
  rw [UInt32.lt_iff_toNat_lt, UInt32.toNat_ofNat']
  simp
  omega

/-- A permitted turn stays within the buffers. -/
theorem next_sound (h : σ.Proper) (hp : turn.Permitted σ) : turn.Sound σ := by
  have hinput := h.shellInput.len_le
  refine ⟨?_, ?_, ?_⟩
  · cases hbranch : turn.branch σ.status.isOpen with
    | idle => simp [Turn.indices, hbranch]
    | opening => simp [Turn.indices, hbranch]
    | closing => simp [Turn.indices, hbranch]
    | enter =>
      simp only [Turn.indices, hbranch, List.forall_mem_map, List.mem_range]
      intro i hi
      exact toUInt32_lt (by omega)
    | backspace =>
      simp only [Turn.indices, hbranch]
      split_ifs with hbeyond
      · obtain ⟨k, hk, hlen, hstop⟩ := hp.backspace hbranch hbeyond
        rw [List.forall_mem_cons]
        exact ⟨StringN.lastIndex_lt (by omega) hinput, eraseIndices_lt _ hinput hk hlen hstop⟩
      · simp
    | char =>
      have hlen := hp.char hbranch
      simp only [Turn.indices, hbranch, List.mem_singleton, forall_eq]
      exact toUInt32_lt (by omega)
  · intro hbranch
    obtain ⟨a, hread, hargs⟩ := readArguments_ok h.commandLine
    refine ⟨a, hread, ?_, ?_⟩
    · exact fun arg harg => StringN.proper_iff.mpr ((hargs arg harg).1.trans hinput)
    · rw [Arguments.filled]
      split_ifs with hname
      · exact fillName_short (Nat.zero_le _) (hp.request hbranch a hread hname) (by
          have hlen := hp.request hbranch a hread hname
          simp
          omega)
      · exact ⟨_, rfl⟩
  · exact hp.paths.imp h.held (fun _ _ => kept_of_fits) fun _ _ => commandStep_held

/-- In every run whose turns are all permitted the strings are proper in every state, and no turn
uses an index outside a buffer. -/
theorem strings_proper {turns : List Turn} (h : σ.Proper)
    (hp : Along turnStep Permits turns (.ok σ)) :
    (∀ turns', turns' <+: turns → ∀ σ', turns'.foldl turnStep (.ok σ) = .ok σ' → σ'.Proper) ∧
      Along turnStep Sounds turns (.ok σ) := by
  let ProperIfOk : Except Fault MainState → Prop := fun y => ∀ σ, y = .ok σ → σ.Proper
  have hstart : ProperIfOk (.ok σ) := by
    intro σ' heq
    obtain rfl := Except.ok.inj heq
    exact h
  have hkeep : ∀ y turn, ProperIfOk y → Permits y turn → ProperIfOk (turnStep y turn) := by
    intro y turn hy hpermits σ' hstep
    cases y with
    | error f => cases hstep
    | ok σ => exact next_proper (hy σ rfl) (hpermits σ rfl) hstep
  constructor
  · exact fun turns' hbegin => hp.forall_prefix hstart hkeep hbegin
  · exact hp.imp hstart (fun y turn hy hpermits σ heq => next_sound (hy σ heq) (hpermits σ heq)) hkeep

end Turns

theorem boots_proper {s : Storage} (h : Image s) {x : Globals × System} (hboot : Boots s x)
    (screen : Screen) (status : ShellStatus) :
    MainState.Proper ⟨⟨screen, status, .create⟩, x.1, x.2⟩ := by
  obtain ⟨-, -, hroot⟩ := boots_inStep h hboot
  have hsame : x.1.currentDirPath = x.1.rootDirPath := by
    obtain ⟨fuel, sh, output, hrun⟩ := hboot
    rw [loadRoot] at hrun
    obtain ⟨answer, s', -, hrun⟩ := of_run_bind hrun
    obtain ⟨sh', s'', -, hrun⟩ := of_run_bind hrun
    obtain rfl := Except.ok.inj hrun
    rfl
  have hproper : StringN.Proper ⟨ascii "./"⟩ := StringN.proper_iff.mpr (by decide)
  refine ⟨StringN.proper_iff.mpr (Nat.zero_le _), by simp [StringN.create], ?_, ?_⟩
  · rw [hsame, hroot.path]
    exact hproper
  · rw [hroot.path]
    exact hproper

def rootPrompt : MainState where
  toTyping := promptAt 2 28
  globals := ⟨fun _ => .zero, ⟨ascii "./"⟩, rootClusterNumber, fun _ => .zero, ⟨ascii "./"⟩,
    rootClusterNumber, rootClusterNumber⟩
  system := ⟨blankStorage, []⟩

theorem rootPrompt_proper : rootPrompt.Proper where
  shellInput := StringN.proper_iff.mpr (Nat.zero_le _)
  ne_zero := by simp [rootPrompt, promptAt, StringN.create]
  currentDirPath := StringN.proper_iff.mpr (by decide)
  rootDirPath := StringN.proper_iff.mpr (by decide)

/-- A turn with Ctrl released, which finds zeros wherever it looks. -/
def keyTurn (c : UInt8) : Turn :=
  ⟨false, c, ⟨0, 0, some 0⟩, blankScreen, 0, fun _ => 0, 0, fun _ => 0⟩

theorem keyTurn_permitted {c : UInt8} {σ : MainState} (hc : c ≠ '\n'.toUInt8)
    (hchar : σ.shellInput.len < 255) (hback : c = '\x08'.toUInt8 → 1 < σ.shellInput.len) :
    (keyTurn c).Permitted σ := by
  have hbranch : (keyTurn c).branch σ.status.isOpen ≠ .enter ∧
      (keyTurn c).branch σ.status.isOpen ≠ .opening := by
    rw [Turn.branch]
    split_ifs with _ _ _ henter <;> simp_all [keyTurn]
  have hcommands : (keyTurn c).commands σ = [] := by
    rw [Turn.commands]
    split
    · exact absurd ‹_› hbranch.2
    · exact absurd ‹_› hbranch.1
    · rfl
  refine ⟨fun _ => hchar, ?_, fun henter => absurd henter hbranch.1, ?_⟩
  · intro hkey _
    refine ⟨1, Nat.one_pos, hback ?_, fun t _ => by simp [goesOn, keyTurn]⟩
    rw [Turn.branch] at hkey
    split_ifs at hkey with _ _ _ _ hc'
    exact hc'
  · rw [Turn.PathsFit, hcommands]
    exact along_nil

theorem strings_proper_keys :
    (∀ turns', turns' <+: [keyTurn 0x61, keyTurn 0x62, keyTurn 0x08] → ∀ σ',
      turns'.foldl turnStep (.ok rootPrompt) = .ok σ' → σ'.Proper) ∧
    Along turnStep Sounds [keyTurn 0x61, keyTurn 0x62, keyTurn 0x08] (.ok rootPrompt) := by
  have hlen : ∀ {turns : List Turn} {n : ℕ} {σ : MainState},
      (turns.foldl turnStep (.ok rootPrompt)).map (fun σ => σ.shellInput.len) = .ok n →
      turns.foldl turnStep (.ok rootPrompt) = .ok σ → σ.shellInput.len = n := by
    intro turns n σ hmap heq
    rw [heq] at hmap
    exact Except.ok.inj hmap
  apply strings_proper rootPrompt_proper
  refine ⟨?_, ?_, ?_, trivial⟩
  · intro σ heq
    have h : σ.shellInput.len = 0 := @hlen [] 0 σ rfl heq
    exact keyTurn_permitted (by decide) (by omega) (fun h => absurd h (by decide))
  · intro σ heq
    have h : σ.shellInput.len = 1 := @hlen [keyTurn 0x61] 1 σ rfl heq
    exact keyTurn_permitted (by decide) (by omega) (fun h => absurd h (by decide))
  · intro σ heq
    have h : σ.shellInput.len = 2 := @hlen [keyTurn 0x61, keyTurn 0x62] 2 σ rfl heq
    exact keyTurn_permitted (by decide) (by omega) (fun _ => by omega)

/-- The backspace that takes the only character away looks in front of the buffer. -/
theorem backspace_underruns : rootPrompt.Proper ∧
    ¬Along turnStep Sounds [keyTurn 0x61, keyTurn 0x08] (.ok rootPrompt) := by
  refine ⟨rootPrompt_proper, ?_⟩
  rintro ⟨-, hback, -⟩
  have hindices : (turnStep (.ok rootPrompt) (keyTurn 0x61)).map (fun σ => (keyTurn 0x08).indices σ) =
      .ok [0, 0, 0xFFFFFFFF] := by rfl
  cases htype : turnStep (.ok rootPrompt) (keyTurn 0x61) with
  | error f =>
    rw [htype] at hindices
    cases hindices
  | ok σ =>
    rw [htype] at hindices
    have hlist : (keyTurn 0x08).indices σ = [0, 0, 0xFFFFFFFF] := Except.ok.inj hindices
    have hsound := (hback σ htype).indices 0xFFFFFFFF (by simp [hlist])
    exact absurd hsound (by decide)

end Os2024.Shell
