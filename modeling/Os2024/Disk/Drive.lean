import Os2024.Disk.Driver

/-! # What the driver needs of a drive

The drive is any device with a protocol state: its blocks, its registers and what is
left of a transfer. How long it is busy and when it gets ready is its own affair, as
long as it does so within the reads of the status that the driver is willing to make.
The driver relies on the drive showing BSY from the command, or from the last word of
a block, until the next block is due: it does not give the drive the 400 ns in which
BSY may come late, and it waits for RDY where a cautious driver waits for DRQ.
-/

namespace Os2024.Disk
open Library.PackedLayout Library.BlockStore Library.CallTrees FileSystem

/-- A block as the words that go through the data port. -/
def blockWords : (Fin 256 → UInt16) ≃ Block := array 256 halfword

/-- The words of a block in the order in which they are sent. -/
def wordsOf (block : Block) : List UInt16 :=
  (List.range 256).map fun j => blockWords.symm block (Fin.ofNat 256 j)

structure TaskFile where
  sectorCount : UInt8
  lbaLow : UInt8
  lbaMid : UInt8
  lbaHigh : UInt8
  device : UInt8

namespace TaskFile

def address (t : TaskFile) : ℕ :=
  t.lbaLow.toNat + 2 ^ 8 * t.lbaMid.toNat + 2 ^ 16 * t.lbaHigh.toNat +
    2 ^ 24 * (t.device &&& 0xF).toNat

/-- A count of zero asks for 256 blocks. -/
def blocksAsked (t : TaskFile) : ℕ := if t.sectorCount = 0 then 256 else t.sectorCount.toNat

def write (port : UInt16) (data : UInt8) (t : TaskFile) : TaskFile :=
  if port = 0x1F2 then { t with sectorCount := data }
  else if port = 0x1F3 then { t with lbaLow := data }
  else if port = 0x1F4 then { t with lbaMid := data }
  else if port = 0x1F5 then { t with lbaHigh := data }
  else if port = 0x1F6 then { t with device := data }
  else t

end TaskFile

/-- Blocks of `remaining` further ones follow the block whose words are still due, or of which
these words have come in. -/
inductive Phase where
  | idle
  | failed
  | sending (lba remaining : ℕ) (words : List UInt16)
  | receiving (lba remaining : ℕ) (words : List UInt16)

/-- The protocol state of a drive; `image` is what its blocks read as. -/
structure DriveState where
  image : Store Block
  capacity : ℕ
  taskFile : TaskFile
  phase : Phase

namespace DriveState

def send (lba : ℕ) : ℕ → DriveState → DriveState
  | 0, x => { x with phase := .idle }
  | remaining + 1, x => { x with phase := .sending lba remaining (wordsOf (x.image lba)) }

def receive (lba : ℕ) : ℕ → DriveState → DriveState
  | 0, x => { x with phase := .idle }
  | remaining + 1, x => { x with phase := .receiving lba remaining [] }

/-- READ SECTORS or WRITE SECTORS. -/
def command (code : UInt8) (x : DriveState) : DriveState :=
  if code = 0x20 then x.send x.taskFile.address x.taskFile.blocksAsked
  else x.receive x.taskFile.address x.taskFile.blocksAsked

@[simp] theorem send_image (lba n : ℕ) (x : DriveState) : (x.send lba n).image = x.image := by
  cases n <;> rfl

@[simp] theorem receive_image (lba n : ℕ) (x : DriveState) : (x.receive lba n).image = x.image := by
  cases n <;> rfl

@[simp] theorem command_image (code : UInt8) (x : DriveState) : (x.command code).image = x.image := by
  rw [command]
  split_ifs <;> simp

/-- The next word has been sent, and these are left; the last one ends the block. -/
def sent (lba remaining : ℕ) (words : List UInt16) (x : DriveState) : DriveState :=
  if words = [] then x.send (lba + 1) remaining
  else { x with phase := .sending lba remaining words }

@[simp] theorem sent_image (lba remaining : ℕ) (words : List UInt16) (x : DriveState) :
    (x.sent lba remaining words).image = x.image := by
  rw [sent]
  split_ifs <;> simp

def storeBlock (lba : ℕ) (words : List UInt16) (x : DriveState) : DriveState :=
  { x with image := Function.update x.image lba (blockWords fun i => words.getD i.val 0) }

/-- These words have come in; the last one stores the block. -/
def received (lba remaining : ℕ) (words : List UInt16) (x : DriveState) : DriveState :=
  if words.length = 256 then (x.storeBlock lba words).receive (lba + 1) remaining
  else { x with phase := .receiving lba remaining words }

end DriveState

/-- A device behind the ports: its answers, its protocol state, how many reads of the status will
still find BSY set, and how many after that will not find RDY set. -/
structure Drive (δ : Type) where
  exec : (c : PortCall) → δ → Except Fault (c.Answer × δ)
  state : δ → DriveState
  busy : δ → ℕ
  unready : δ → ℕ

namespace Drive
variable {δ : Type}

/-- BSY is clear and RDY is set. -/
structure Settled (D : Drive δ) (d : δ) : Prop where
  busy : D.busy d = 0
  unready : D.unready d = 0

/-- What the driver relies on, when it gives up a wait after `fuel` reads of the status. -/
structure Spec (D : Drive δ) (fuel : ℕ) : Prop where
  busy_lt : ∀ d, D.busy d < fuel
  unready_lt : ∀ d, D.unready d < fuel
  /-- A read of the status shows BSY while the drive is busy. -/
  status_busy : ∀ d, 0 < D.busy d → ∃ (status : UInt8) (d' : δ),
    D.exec (.inb 0x1F7) d = .ok (status, d') ∧ status &&& ataStatusBsy ≠ 0 ∧
      D.busy d' < D.busy d ∧ D.state d' = D.state d
  /-- RDY may come later than BSY goes. -/
  status_unready : ∀ d, D.busy d = 0 → 0 < D.unready d → ∃ (status : UInt8) (d' : δ),
    D.exec (.inb 0x1F7) d = .ok (status, d') ∧ status &&& ataStatusBsy = 0 ∧
      status &&& ataStatusRdy = 0 ∧ D.busy d' = 0 ∧ D.unready d' < D.unready d ∧ D.state d' = D.state d
  status_settled : ∀ d, D.Settled d → ∃ (status : UInt8) (d' : δ),
    D.exec (.inb 0x1F7) d = .ok (status, d') ∧ status &&& ataStatusBsy = 0 ∧
      status &&& ataStatusRdy ≠ 0 ∧ D.Settled d' ∧ D.state d' = D.state d
  /-- An idle drive takes over the registers once BSY is clear. -/
  register : ∀ d (port : UInt16) (data : UInt8), D.busy d = 0 → (D.state d).phase = .idle →
    0x1F2 ≤ port → port ≤ 0x1F6 → ∃ d' : δ, D.exec (.outb port data) d = .ok ((), d') ∧
      D.busy d' = 0 ∧ D.state d' = { D.state d with taskFile := (D.state d).taskFile.write port data }
  /-- A command for blocks that the drive has. BSY is set at once unless the first block is due. -/
  command : ∀ d (code : UInt8), D.busy d = 0 → (D.state d).phase = .idle →
    (D.state d).taskFile.address + (D.state d).taskFile.blocksAsked ≤ (D.state d).capacity →
    code = 0x20 ∨ code = 0x30 → ∃ d' : δ, D.exec (.outb 0x1F7 code) d = .ok ((), d') ∧
      D.state d' = (D.state d).command code
  /-- With BSY clear and RDY set the block is due, and the words of a block come without a pause. -/
  readData : ∀ d lba remaining word words, D.Settled d →
    (D.state d).phase = .sending lba remaining (word :: words) → ∃ d' : δ,
      D.exec (.inw 0x1F0) d = .ok (word, d') ∧ D.state d' = (D.state d).sent lba remaining words ∧
        (words ≠ [] → D.Settled d')
  writeData : ∀ d lba remaining words word, D.Settled d →
    (D.state d).phase = .receiving lba remaining words → ∃ d' : δ,
      D.exec (.outw 0x1F0 word) d = .ok ((), d') ∧
        D.state d' = (D.state d).received lba remaining (words ++ [word]) ∧
        (words.length ≠ 255 → D.Settled d')
  /-- Only words that are sent to the drive change a block. -/
  image_eq : ∀ d (c : PortCall) (a : c.Answer) (d' : δ), (∀ port data, c ≠ .outw port data) →
    D.exec c d = .ok (a, d') → (D.state d').image = (D.state d).image

end Drive

end Os2024.Disk
