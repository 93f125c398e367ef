import Os2024.Disk.Drive

/-! # A drive that is busy for a while

An automaton that does what the driver relies on. How long it is busy, and how much
later it gets ready, is given in advance for every command and every block.
-/

namespace Os2024.Disk
open Library.PackedLayout Library.BlockStore Library.CallTrees FileSystem

/-- The times of the phases to come are in `pace`. -/
structure Ata (fuel : ℕ) where
  state : DriveState
  busy : Fin fuel
  unready : Fin fuel
  pace : ℕ → Fin fuel × Fin fuel

namespace Ata
variable {fuel : ℕ}

def enter (state : DriveState) (d : Ata fuel) : Ata fuel :=
  ⟨state, (d.pace 0).1, (d.pace 0).2, fun n => d.pace (n + 1)⟩

/-- A command for blocks that the drive does not have is aborted. -/
def command (code : UInt8) (d : Ata fuel) : Ata fuel :=
  if d.state.capacity < d.state.taskFile.address + d.state.taskFile.blocksAsked ∨
      code ≠ 0x20 ∧ code ≠ 0x30 then d.enter { d.state with phase := .failed }
  else d.enter (d.state.command code)

def settledStatus (d : Ata fuel) : UInt8 :=
  match d.state.phase with
  | .idle => ataStatusRdy
  | .failed => ataStatusRdy ||| ataStatusErr
  | .sending _ _ _ => ataStatusRdy ||| ataStatusDrq
  | .receiving _ _ _ => ataStatusRdy ||| ataStatusDrq

def less {n : ℕ} (i : Fin n) : Fin n := ⟨i.val - 1, lt_of_le_of_lt (Nat.sub_le _ _) i.isLt⟩

/-- Every read of the status brings the end of the wait nearer. -/
def readRegister (port : UInt16) (d : Ata fuel) : UInt8 × Ata fuel :=
  if port = 0x1F7 then
    if 0 < d.busy.val then (ataStatusBsy, { d with busy := less d.busy })
    else if 0 < d.unready.val then (0, { d with unready := less d.unready })
    else (d.settledStatus, d)
  else (0, d)

/-- A busy drive ignores its registers. -/
def writeRegister (port : UInt16) (data : UInt8) (d : Ata fuel) : Ata fuel :=
  if 0 < d.busy.val then d
  else if port = 0x1F7 then d.command data
  else { d with state := { d.state with taskFile := d.state.taskFile.write port data } }

def readWord (port : UInt16) (d : Ata fuel) : UInt16 × Ata fuel :=
  if port = 0x1F0 ∧ d.busy.val = 0 ∧ d.unready.val = 0 then
    match d.state.phase with
    | .sending lba remaining (word :: words) =>
      (word, if words = [] then d.enter (d.state.sent lba remaining words)
        else { d with state := d.state.sent lba remaining words })
    | _ => (0xFFFF, d)
  else (0xFFFF, d)

def writeWord (port data : UInt16) (d : Ata fuel) : Ata fuel :=
  if port = 0x1F0 ∧ d.busy.val = 0 ∧ d.unready.val = 0 then
    match d.state.phase with
    | .receiving lba remaining words =>
      if words.length = 255 then d.enter (d.state.received lba remaining (words ++ [data]))
      else { d with state := d.state.received lba remaining (words ++ [data]) }
    | _ => d
  else d

def exec : (c : PortCall) → Ata fuel → Except Fault (c.Answer × Ata fuel)
  | .inb port, d => .ok (d.readRegister port)
  | .outb port data, d => .ok ((), d.writeRegister port data)
  | .inw port, d => .ok (d.readWord port)
  | .outw port data, d => .ok ((), d.writeWord port data)

def drive (fuel : ℕ) : Drive (Ata fuel) := ⟨exec, state, fun d => d.busy, fun d => d.unready⟩

theorem settledStatus_ready (d : Ata fuel) :
    d.settledStatus &&& ataStatusBsy = 0 ∧ d.settledStatus &&& ataStatusRdy ≠ 0 := by
  cases hphase : d.state.phase <;> simp only [settledStatus, hphase] <;> decide

variable {d : Ata fuel}

@[simp] theorem enter_state (state : DriveState) : (d.enter state).state = state := rfl

theorem command_image (code : UInt8) : (d.command code).state.image = d.state.image := by
  rw [command]
  split_ifs <;> simp

theorem readRegister_image (port : UInt16) : (d.readRegister port).2.state.image = d.state.image := by
  rw [readRegister]
  split_ifs <;> rfl

theorem writeRegister_image (port : UInt16) (data : UInt8) :
    (d.writeRegister port data).state.image = d.state.image := by
  rw [writeRegister]
  split_ifs
  · rfl
  · exact command_image data
  · rfl

theorem readWord_image (port : UInt16) : (d.readWord port).2.state.image = d.state.image := by
  rw [readWord]
  split
  · split
    · dsimp only
      split_ifs <;> simp
    · rfl
  · rfl

theorem command_of_fits {code : UInt8}
    (hfit : d.state.taskFile.address + d.state.taskFile.blocksAsked ≤ d.state.capacity)
    (hcode : code = 0x20 ∨ code = 0x30) : d.command code = d.enter (d.state.command code) := by
  rw [command, if_neg]
  rintro (hbig | ⟨hread, hwrite⟩)
  · omega
  · exact hcode.elim hread hwrite

theorem readWord_due {lba remaining : ℕ} {word : UInt16} {words : List UInt16}
    (h : (drive fuel).Settled d) (hphase : d.state.phase = .sending lba remaining (word :: words)) :
    d.readWord 0x1F0 = (word, if words = [] then d.enter (d.state.sent lba remaining words)
      else { d with state := d.state.sent lba remaining words }) := by
  have hbusy : d.busy.val = 0 := h.busy
  have hunready : d.unready.val = 0 := h.unready
  rw [readWord, if_pos ⟨rfl, hbusy, hunready⟩, hphase]

theorem writeWord_due {lba remaining : ℕ} {words : List UInt16} (data : UInt16)
    (h : (drive fuel).Settled d) (hphase : d.state.phase = .receiving lba remaining words) :
    d.writeWord 0x1F0 data =
      if words.length = 255 then d.enter (d.state.received lba remaining (words ++ [data]))
      else { d with state := d.state.received lba remaining (words ++ [data]) } := by
  have hbusy : d.busy.val = 0 := h.busy
  have hunready : d.unready.val = 0 := h.unready
  rw [writeWord, if_pos ⟨rfl, hbusy, hunready⟩, hphase]

theorem drive_spec (fuel : ℕ) : (drive fuel).Spec fuel where
  busy_lt d := d.busy.isLt
  unready_lt d := d.unready.isLt
  status_busy d hbusy := by
    have hbusy' : 0 < d.busy.val := hbusy
    have hread : d.readRegister 0x1F7 = (ataStatusBsy, { d with busy := less d.busy }) := by
      rw [readRegister, if_pos rfl, if_pos hbusy']
    exact ⟨_, _, congrArg Except.ok hread, by decide, Nat.sub_lt hbusy Nat.one_pos, rfl⟩
  status_unready d hbusy hunready := by
    have hidle : ¬0 < d.busy.val := Nat.not_lt.mpr (le_of_eq hbusy)
    have hunready' : 0 < d.unready.val := hunready
    have hread : d.readRegister 0x1F7 = (0, { d with unready := less d.unready }) := by
      rw [readRegister, if_pos rfl, if_neg hidle, if_pos hunready']
    exact ⟨_, _, congrArg Except.ok hread, by decide, by decide, hbusy,
      Nat.sub_lt hunready Nat.one_pos, rfl⟩
  status_settled d h := by
    have hidle : ¬0 < d.busy.val := Nat.not_lt.mpr (le_of_eq h.busy)
    have hready : ¬0 < d.unready.val := Nat.not_lt.mpr (le_of_eq h.unready)
    have hread : d.readRegister 0x1F7 = (d.settledStatus, d) := by
      rw [readRegister, if_pos rfl, if_neg hidle, if_neg hready]
    exact ⟨_, _, congrArg Except.ok hread, d.settledStatus_ready.1, d.settledStatus_ready.2, h, rfl⟩
  register d port data hbusy hphase hlow hhigh := by
    have hidle : ¬0 < d.busy.val := Nat.not_lt.mpr (le_of_eq hbusy)
    have hne : port ≠ 0x1F7 := by
      rintro rfl
      exact absurd hhigh (by decide)
    have hwrite : d.writeRegister port data =
        { d with state := { d.state with taskFile := d.state.taskFile.write port data } } := by
      rw [writeRegister, if_neg hidle, if_neg hne]
    exact ⟨_, congrArg (fun e => Except.ok ((), e)) hwrite, hbusy, rfl⟩
  command d code hbusy hphase hfit hcode := by
    have hidle : ¬0 < d.busy.val := Nat.not_lt.mpr (le_of_eq hbusy)
    have hwrite : d.writeRegister 0x1F7 code = d.enter (d.state.command code) := by
      rw [writeRegister, if_neg hidle, if_pos rfl, command_of_fits hfit hcode]
    exact ⟨_, congrArg (fun e => Except.ok ((), e)) hwrite, rfl⟩
  readData d lba remaining word words h hphase := by
    refine ⟨_, congrArg Except.ok (readWord_due h hphase), ?_, fun hmore => ?_⟩
    · split_ifs <;> rfl
    · rw [if_neg hmore]
      exact ⟨h.busy, h.unready⟩
  writeData d lba remaining words word h hphase := by
    refine ⟨_, congrArg (fun e => Except.ok ((), e)) (writeWord_due word h hphase), ?_, fun hmore => ?_⟩
    · split_ifs <;> rfl
    · rw [if_neg hmore]
      exact ⟨h.busy, h.unready⟩
  image_eq d c a d' hc h := by
    cases c with
    | inb port =>
      have hd : (d.readRegister port).2 = d' := congrArg Prod.snd (Except.ok.inj h)
      exact hd ▸ readRegister_image port
    | outb port data =>
      have hd : d.writeRegister port data = d' := congrArg Prod.snd (Except.ok.inj h)
      exact hd ▸ writeRegister_image port data
    | inw port =>
      have hd : (d.readWord port).2 = d' := congrArg Prod.snd (Except.ok.inj h)
      exact hd ▸ readWord_image port
    | outw port data => exact absurd rfl (hc port data)

end Ata

end Os2024.Disk
