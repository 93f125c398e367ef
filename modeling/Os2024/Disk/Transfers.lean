import Os2024.Disk.Ata
import Os2024.Disk.Words

/-! # Block transfers through the ports

However long the drive makes the host wait, a transfer moves every word of every
block once: what `read_blocks` stores is what the block store holds, and what
`write_blocks` finds in memory is what the block store holds afterwards. Stopped at
any port access, a write has stored the first blocks of the transfer and no others.
-/

namespace Os2024.Disk
open Library.PackedLayout Library.BlockStore Library.CallTrees FileSystem

variable {δ : Type} {D : Drive δ} {d : δ} {fuel : ℕ} {lba remaining : ℕ}

def firstBlocks (image : Store Block) (lba : ℕ) (f : ℕ → Block) (k : ℕ) : Store Block :=
  writeRange image lba fun i : Fin k => f i.val

@[simp] theorem firstBlocks_zero (image : Store Block) (f : ℕ → Block) :
    firstBlocks image lba f 0 = image := by
  funext b
  exact writeRange_outside image lba _ b (by omega)

theorem firstBlocks_succ (image : Store Block) (f : ℕ → Block) (k : ℕ) :
    firstBlocks image lba f (k + 1) =
      Function.update (firstBlocks image lba f k) (lba + k) (f k) := by
  funext b
  by_cases hb : b = lba + k
  · subst b
    rw [Function.update_self, firstBlocks, writeRange, dif_pos (by omega)]
    simp
  · rw [Function.update_of_ne hb, firstBlocks, firstBlocks, writeRange, writeRange]
    by_cases hin : lba ≤ b ∧ b - lba < k
    · rw [dif_pos hin, dif_pos (by omega)]
    · rw [dif_neg hin, dif_neg (by omega)]

/-- The drive holds these blocks and no transfer is going on. -/
structure Drive.Rests (D : Drive δ) (image : Store Block) (capacity : ℕ) (d : δ) : Prop where
  phase : (D.state d).phase = .idle
  image : (D.state d).image = image
  capacity : (D.state d).capacity = capacity

/-- The step of the loop of `read_blocks`, and from it the loop. -/
theorem run_receiveBlocks (hD : D.Spec fuel) (lba : ℕ) (ptr : UInt32) (n i : ℕ) (mem : Memory)
    {x : DriveState} (hd : D.state d = x.send (lba + i) n) :
    ∃ d', ((List.range' i n).foldlM (fun mem i => do
        awaitBlock fuel
        receiveWords (ptr + .ofNat (512 * i)) mem) mem : PortProg Memory).run D.exec d =
        .ok ((List.range' i n).foldl (fun mem i =>
          mem.setElement (bytes 512) ptr i (x.image (lba + i))) mem, d') ∧
      D.Rests x.image x.capacity d' := by
  induction n generalizing i mem d x with
  | zero => exact ⟨d, rfl, by rw [hd]; rfl, by rw [hd]; rfl, by rw [hd]; rfl⟩
  | succ n ih =>
    obtain ⟨d₁, hwait, hsettled, hstate₁⟩ := hD.run_awaitBlock d
    rw [hd, DriveState.send] at hstate₁
    obtain ⟨d₂, hwords, hstate₂⟩ := hD.run_receiveWords (ptr + .ofNat (512 * i)) mem
      (x.image (lba + i)) hsettled (by rw [hstate₁])
    rw [hstate₁, DriveState.send_of_phase] at hstate₂
    obtain ⟨d', hrun, hd'⟩ := ih (i + 1) (mem.setElement (bytes 512) ptr i (x.image (lba + i))) hstate₂
    refine ⟨d', ?_, hd'⟩
    rw [List.range'_succ, List.foldlM_cons]
    exact (Program.run_bind_ok ((Program.run_bind_ok hwait).trans hwords)).trans hrun

def OnDrive (c : PortCall) : Prop := 0x1F0 ≤ c.port ∧ c.port ≤ 0x1F7

/-- Only words sent through the data port change a block. -/
def Quiet (c : PortCall) : Prop := OnDrive c ∧ ∀ port data, c ≠ .outw port data

theorem reaches_image (hD : D.Spec fuel) {α : Type} {p : PortProg α} (hp : p.Uses Quiet) {t : δ}
    (h : p.Reaches D.exec d t) : (D.state t).image = (D.state d).image :=
  h.invariant (I := fun e => (D.state e).image = (D.state d).image) hp rfl
    fun c hc s a s' hs hexec => (hD.image_eq s c a s' hc.2 hexec).trans hs

theorem inb_quiet {port : UInt16} (h : OnDrive (.inb port)) : (inb port).Uses Quiet :=
  Program.Uses.perform ⟨h, fun _ _ h => by cases h⟩

theorem outb_quiet {port : UInt16} (data : UInt8) (h : 0x1F0 ≤ port ∧ port ≤ 0x1F7) :
    (outb port data).Uses Quiet := Program.Uses.perform ⟨h, fun _ _ h => by cases h⟩

theorem inw_quiet {port : UInt16} (h : OnDrive (.inw port)) : (inw port).Uses Quiet :=
  Program.Uses.perform ⟨h, fun _ _ h => by cases h⟩

theorem onDrive_status : OnDrive (.inb 0x1F7) := ⟨by decide, by decide⟩

theorem ataBusyWait_quiet (fuel : ℕ) : (ataBusyWait fuel).Uses Quiet := by
  induction fuel with
  | zero => trivial
  | succ fuel ih =>
    apply (inb_quiet onDrive_status).bind
    intro status
    split_ifs
    · exact ih
    · trivial

theorem ataDrqWait_quiet (fuel : ℕ) : (ataDrqWait fuel).Uses Quiet := by
  induction fuel with
  | zero => trivial
  | succ fuel ih =>
    apply (inb_quiet onDrive_status).bind
    intro status
    split_ifs
    · exact ih
    · trivial

theorem awaitBlock_quiet (fuel : ℕ) : (awaitBlock fuel).Uses Quiet :=
  (ataBusyWait_quiet fuel).bind fun _ => ataDrqWait_quiet fuel

theorem sendCommand_quiet (fuel : ℕ) (logicalBlockAddress : UInt32) (blockCount code : UInt8) :
    (sendCommand fuel logicalBlockAddress blockCount code).Uses Quiet := by
  refine (ataBusyWait_quiet fuel).bind fun _ => ?_
  refine (outb_quiet _ (by decide)).bind fun _ => ?_
  refine (outb_quiet _ (by decide)).bind fun _ => ?_
  refine (outb_quiet _ (by decide)).bind fun _ => ?_
  refine (outb_quiet _ (by decide)).bind fun _ => ?_
  exact (outb_quiet _ (by decide)).bind fun _ => outb_quiet _ (by decide)

theorem foldlM_quiet {α β : Type} {f : α → β → PortProg α} (hf : ∀ a b, (f a b).Uses Quiet)
    (l : List β) (a : α) : (l.foldlM f a).Uses Quiet := by
  induction l generalizing a with
  | nil => trivial
  | cons b l ih =>
    rw [List.foldlM_cons]
    exact (hf a b).bind ih

theorem receiveWords_quiet (target : UInt32) (mem : Memory) :
    (receiveWords target mem).Uses Quiet :=
  foldlM_quiet (fun _ _ => (inw_quiet ⟨by decide, by decide⟩).bind fun _ => by trivial) _ mem

theorem readBlocks_quiet (ptr logicalBlockAddress : UInt32) (blockCount : UInt8) (mem : Memory) :
    (readBlocks fuel ptr logicalBlockAddress blockCount mem).Uses Quiet :=
  (sendCommand_quiet _ _ _ _).bind fun _ => foldlM_quiet (fun mem _ =>
    (awaitBlock_quiet fuel).bind fun _ => receiveWords_quiet _ mem) _ mem

theorem forM_onDrive {β : Type} {f : β → PortProg Unit} (hf : ∀ b, (f b).Uses OnDrive) (l : List β) :
    (forM l f).Uses OnDrive := by
  induction l with
  | nil => trivial
  | cons b l ih =>
    rw [List.forM_cons]
    exact (hf b).bind fun _ => ih

theorem writeBlocks_onDrive (ptr logicalBlockAddress : UInt32) (blockCount : UInt8) (mem : Memory) :
    (writeBlocks fuel ptr logicalBlockAddress blockCount mem).Uses OnDrive := by
  refine ((sendCommand_quiet _ _ _ _).mono fun _ hc => hc.1).bind fun _ => forM_onDrive (fun i => ?_) _
  refine ((awaitBlock_quiet fuel).mono fun _ hc => hc.1).bind fun _ => forM_onDrive (fun j => ?_) _
  have hdata : (0x1F0 : UInt16) ≤ 0x1F0 ∧ (0x1F0 : UInt16) ≤ 0x1F7 := by decide
  exact Program.Uses.perform hdata

/-- The step of the loop of `write_blocks`, and from it the loop; stopped anywhere it has stored
the first blocks, and it may be stopped after any number of them. -/
theorem run_sendBlocks (hD : D.Spec fuel) (lba : ℕ) (ptr : UInt32) (mem : Memory)
    (image : Store Block) (n i : ℕ) {x : DriveState} (hd : D.state d = x.receive (lba + i) n)
    (himage : x.image = firstBlocks image lba (mem.element (bytes 512) ptr) i) :
    ∃ d', (forM (List.range' i n) fun i => do
        awaitBlock fuel
        sendWords ptr i mem : PortProg Unit).run D.exec d = .ok ((), d') ∧
      D.Rests (firstBlocks image lba (mem.element (bytes 512) ptr) (i + n)) x.capacity d' ∧
      (∀ {t}, (forM (List.range' i n) fun i => do
        awaitBlock fuel
        sendWords ptr i mem : PortProg Unit).Reaches D.exec d t →
        ∃ k ≤ i + n, (D.state t).image = firstBlocks image lba (mem.element (bytes 512) ptr) k) ∧
      ∀ k, i ≤ k → k ≤ i + n → ∃ t, (forM (List.range' i n) fun i => do
        awaitBlock fuel
        sendWords ptr i mem : PortProg Unit).Reaches D.exec d t ∧
        (D.state t).image = firstBlocks image lba (mem.element (bytes 512) ptr) k := by
  induction n generalizing i d x with
  | zero =>
    have himage' : (D.state d).image = firstBlocks image lba (mem.element (bytes 512) ptr) i := by
      rw [hd, DriveState.receive_image, himage]
    refine ⟨d, rfl, ⟨by rw [hd]; rfl, himage', by rw [hd]; rfl⟩, fun ht => ⟨i, le_rfl, ?_⟩,
      fun k hik hk => ⟨d, rfl, ?_⟩⟩
    · obtain rfl := ht
      exact himage'
    · obtain rfl : k = i := by omega
      exact himage'
  | succ n ih =>
    let stored : DriveState := { x with
      image := Function.update x.image (lba + i) (mem.element (bytes 512) ptr i) }
    have hstored : stored.image = firstBlocks image lba (mem.element (bytes 512) ptr) (i + 1) := by
      rw [firstBlocks_succ, ← himage]
    have hbefore : (D.state d).image = firstBlocks image lba (mem.element (bytes 512) ptr) i := by
      rw [hd, DriveState.receive_image, himage]
    obtain ⟨d₁, hwait, hsettled, hstate₁⟩ := hD.run_awaitBlock d
    rw [hd, DriveState.receive] at hstate₁
    obtain ⟨d₂, hwords, hstate₂, hpart⟩ := hD.run_sendWords ptr i mem hsettled (by rw [hstate₁])
    rw [hstate₁] at hstate₂ hpart
    have hnext : D.state d₂ = stored.receive (lba + (i + 1)) n :=
      hstate₂.trans (DriveState.receive_of_phase (x := stored) _ n)
    have hpass : (do
        awaitBlock fuel
        sendWords ptr i mem : PortProg Unit).run D.exec d = .ok ((), d₂) :=
      (Program.run_bind_ok hwait).trans hwords
    have hpass_reaches : ∀ {t}, (do
        awaitBlock fuel
        sendWords ptr i mem : PortProg Unit).Reaches D.exec d t →
        (D.state t).image = x.image ∨ (D.state t).image = stored.image := by
      intro t ht
      rcases ht.of_bind hwait with h | h
      · exact .inl ((reaches_image hD (awaitBlock_quiet fuel) h).trans (hbefore.trans himage.symm))
      · exact hpart h
    obtain ⟨d', hrun, hd', hreach, hstop⟩ := ih (i + 1) hnext hstored
    rw [List.range'_succ, List.forM_cons]
    refine ⟨d', (Program.run_bind_ok hpass).trans hrun, ?_, fun ht => ?_, fun k hik hk => ?_⟩
    · rwa [show i + (n + 1) = i + 1 + n by omega]
    · rcases ht.of_bind hpass with hhere | hlater
      · rcases hpass_reaches hhere with h' | h'
        · exact ⟨i, by omega, h'.trans himage⟩
        · exact ⟨i + 1, by omega, h'.trans hstored⟩
      · obtain ⟨k, hk, hkt⟩ := hreach hlater
        exact ⟨k, by omega, hkt⟩
    · by_cases hlater : i + 1 ≤ k
      · obtain ⟨t, ht, hkt⟩ := hstop k hlater (by omega)
        exact ⟨t, Program.reaches_bind.mpr (.inr ⟨(), d₂, hpass, ht⟩), hkt⟩
      · obtain rfl : k = i := by omega
        exact ⟨d, Program.reaches_start _ _, hbefore⟩

def bufferBlocks (mem : Memory) (ptr : UInt32) (count : ℕ) : Fin count → Block :=
  (array count (bytes 512)).symm (mem.load (count * 512) ptr)

theorem bufferBlocks_eq (mem : Memory) (ptr : UInt32) (count : ℕ) :
    bufferBlocks mem ptr count = fun i => mem.element (bytes 512) ptr i.val := by
  rw [bufferBlocks, Equiv.symm_apply_eq, Memory.array_element]

variable {image : Store Block} {capacity : ℕ}

/-- A command for blocks that the drive has is carried out. -/
theorem Drive.Spec.run_transferCommand (hD : D.Spec fuel) (h : D.Rests image capacity d)
    {logicalBlockAddress : UInt32} {blockCount code : UInt8} (hcode : code = 0x20 ∨ code = 0x30)
    (hcount : blockCount ≠ 0)
    (hfit : logicalBlockAddress.toNat % 2 ^ 28 + blockCount.toNat ≤ capacity) :
    ∃ (d' : δ) (x : DriveState),
      (sendCommand fuel logicalBlockAddress blockCount code).run D.exec d = .ok ((), d') ∧
      x.image = image ∧ x.capacity = capacity ∧ D.state d' = if code = 0x20 then
        x.send (logicalBlockAddress.toNat % 2 ^ 28) blockCount.toNat
        else x.receive (logicalBlockAddress.toNat % 2 ^ 28) blockCount.toNat := by
  let x := (D.state d).addressed logicalBlockAddress blockCount
  have haddress : x.taskFile.address = logicalBlockAddress.toNat % 2 ^ 28 :=
    DriveState.addressed_address ..
  have hasked : x.taskFile.blocksAsked = blockCount.toNat := if_neg hcount
  obtain ⟨d', hrun, hstate⟩ := hD.run_sendCommand logicalBlockAddress blockCount code h.phase hcode
    (by rw [h.capacity]; exact le_of_eq_of_le (congrArg₂ (· + ·) haddress hasked) hfit)
  refine ⟨d', x, hrun, h.image, h.capacity, ?_⟩
  rw [hstate, DriveState.command, ← haddress, ← hasked]

/-- `read_blocks` stores the blocks of the drive. -/
theorem run_readBlocks (hD : D.Spec fuel) (h : D.Rests image capacity d) (ptr : UInt32)
    {logicalBlockAddress : UInt32} {blockCount : UInt8} (mem : Memory) (hcount : blockCount ≠ 0)
    (hfit : logicalBlockAddress.toNat % 2 ^ 28 + blockCount.toNat ≤ capacity) :
    ∃ d', (readBlocks fuel ptr logicalBlockAddress blockCount mem).run D.exec d =
        .ok (mem.store ptr (array blockCount.toNat (bytes 512)
          (readRange image (logicalBlockAddress.toNat % 2 ^ 28) blockCount.toNat)), d') ∧
      D.Rests image capacity d' := by
  have hsmall := blockCount.toNat_lt
  obtain ⟨d₁, x, hcommand, rfl, rfl, hstate⟩ := hD.run_transferCommand h (.inl rfl) hcount hfit
  rw [if_pos rfl] at hstate
  obtain ⟨d', hrun, hd'⟩ := run_receiveBlocks hD (logicalBlockAddress.toNat % 2 ^ 28) ptr
    blockCount.toNat 0 mem hstate
  rw [← List.range_eq_range', Memory.foldl_setElement mem (bytes 512) ptr _ (by decide) (by omega)] at hrun
  exact ⟨d', (Program.run_bind_ok hcommand).trans hrun, hd'⟩

/-- `write_blocks` leaves the blocks of the buffer on the drive; stopped at any port access, it
has left the first ones there, and it may have left any number of them. -/
theorem run_writeBlocks (hD : D.Spec fuel) (h : D.Rests image capacity d) (ptr : UInt32)
    {logicalBlockAddress : UInt32} {blockCount : UInt8} (mem : Memory) (hcount : blockCount ≠ 0)
    (hfit : logicalBlockAddress.toNat % 2 ^ 28 + blockCount.toNat ≤ capacity) :
    ∃ d', (writeBlocks fuel ptr logicalBlockAddress blockCount mem).run D.exec d = .ok ((), d') ∧
      D.Rests (writeRange image (logicalBlockAddress.toNat % 2 ^ 28)
        (bufferBlocks mem ptr blockCount.toNat)) capacity d' ∧
      (∀ {t}, (writeBlocks fuel ptr logicalBlockAddress blockCount mem).Reaches D.exec d t →
        ∃ k ≤ blockCount.toNat, (D.state t).image = firstBlocks image
          (logicalBlockAddress.toNat % 2 ^ 28) (mem.element (bytes 512) ptr) k) ∧
      ∀ k ≤ blockCount.toNat, ∃ t,
        (writeBlocks fuel ptr logicalBlockAddress blockCount mem).Reaches D.exec d t ∧
          (D.state t).image = firstBlocks image (logicalBlockAddress.toNat % 2 ^ 28)
            (mem.element (bytes 512) ptr) k := by
  obtain ⟨d₁, x, hcommand, himage, rfl, hstate⟩ := hD.run_transferCommand h (.inr rfl) hcount hfit
  rw [if_neg (by decide)] at hstate
  obtain ⟨d', hrun, hd', hreach, hstop⟩ := run_sendBlocks hD (logicalBlockAddress.toNat % 2 ^ 28) ptr mem
    image blockCount.toNat 0 hstate (by rw [firstBlocks_zero, himage])
  rw [Nat.zero_add] at hd'
  rw [← List.range_eq_range'] at hrun hreach hstop
  refine ⟨d', (Program.run_bind_ok hcommand).trans hrun, ?_, fun ht => ?_, fun k hk => ?_⟩
  · rw [bufferBlocks_eq]
    exact hd'
  · rcases ht.of_bind hcommand with hsetup | hblocks
    · refine ⟨0, Nat.zero_le _, ?_⟩
      rw [firstBlocks_zero, reaches_image hD (sendCommand_quiet _ _ _ _) hsetup, h.image]
    · obtain ⟨k, hk, hkt⟩ := hreach hblocks
      exact ⟨k, by omega, hkt⟩
  · obtain ⟨t, ht, hkt⟩ := hstop k (Nat.zero_le k) (by omega)
    exact ⟨t, Program.reaches_bind.mpr (.inr ⟨(), d₁, hcommand, ht⟩), hkt⟩

inductive BlockRequest where
  | read (ptr logicalBlockAddress : UInt32) (blockCount : UInt8)
  | write (ptr logicalBlockAddress : UInt32) (blockCount : UInt8)

namespace BlockRequest

def logicalBlockAddress : BlockRequest → UInt32
  | read _ lba _ => lba
  | write _ lba _ => lba

def blockCount : BlockRequest → UInt8
  | read _ _ count => count
  | write _ _ count => count

structure Fits (capacity : ℕ) (r : BlockRequest) : Prop where
  count : r.blockCount ≠ 0
  range : r.logicalBlockAddress.toNat % 2 ^ 28 + r.blockCount.toNat ≤ capacity

def run (fuel : ℕ) (mem : Memory) : BlockRequest → PortProg Memory
  | read ptr lba count => readBlocks fuel ptr lba count mem
  | write ptr lba count => do
    writeBlocks fuel ptr lba count mem
    pure mem

/-- The transfer between memory and an ideal block store. -/
def exec (x : Memory × Store Block) : BlockRequest → Memory × Store Block
  | read ptr lba count =>
    (x.1.store ptr (array count.toNat (bytes 512) (readRange x.2 (lba.toNat % 2 ^ 28) count.toNat)),
      x.2)
  | write ptr lba count =>
    (x.1, writeRange x.2 (lba.toNat % 2 ^ 28) (bufferBlocks x.1 ptr count.toNat))

end BlockRequest

def serve (fuel : ℕ) (rs : List BlockRequest) (mem : Memory) : PortProg Memory :=
  rs.foldlM (fun mem r => r.run fuel mem) mem

/-- A drive of 4 MiB that is busy for up to three reads of its status, and then not ready for two. -/
def freshDrive (image : Store Block) : Ata 4 where
  state := ⟨image, 8192, ⟨0, 0, 0, 0, 0⟩, .idle⟩
  busy := ⟨2, by decide⟩
  unready := ⟨1, by decide⟩
  pace n := (⟨3 * n % 4, Nat.mod_lt _ (by decide)⟩, ⟨2, by decide⟩)

theorem freshDrive_rests (image : Store Block) : (Ata.drive 4).Rests image 8192 (freshDrive image) :=
  ⟨rfl, rfl, rfl⟩

end Os2024.Disk
