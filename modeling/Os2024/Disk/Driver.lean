import Os2024.Disk.Buffers
import Os2024.FileSystem.Driver
import Os2024.Library.CutRuns
import Os2024.Ports

/-! # The ATA driver of disk.c

The driver talks to the drive through ports, so its functions are programs whose
calls are port accesses. What the drive answers is not fixed here.
-/

namespace Os2024.Disk
open Library.PackedLayout Library.BlockStore Library.CallTrees FileSystem

def ataStatusBsy : UInt8 := 0x80
def ataStatusRdy : UInt8 := 0x40
def ataStatusDrq : UInt8 := 0x08
def ataStatusErr : UInt8 := 0x01

/-- `while (in(0x1F7) & ATA_STATUS_BSY);`, given up after so many reads. -/
def ataBusyWait : ℕ → PortProg Unit
  | 0 => Program.fail .diverges
  | fuel + 1 => do
    let status ← inb 0x1F7
    if status &&& ataStatusBsy ≠ 0 then ataBusyWait fuel else pure ()

/-- `while (!(in(0x1F7) & ATA_STATUS_RDY));`. It waits for RDY and not for DRQ. -/
def ataDrqWait : ℕ → PortProg Unit
  | 0 => Program.fail .diverges
  | fuel + 1 => do
    let status ← inb 0x1F7
    if status &&& ataStatusRdy = 0 then ataDrqWait fuel else pure ()

/-- What both transfers start with. -/
def sendCommand (fuel : ℕ) (logicalBlockAddress : UInt32) (blockCount command : UInt8) :
    PortProg Unit := do
  ataBusyWait fuel
  outb 0x1F6 ((0xE0 : UInt8) ||| (logicalBlockAddress >>> 24 &&& 0xF).toUInt8)
  outb 0x1F2 blockCount
  outb 0x1F3 logicalBlockAddress.toUInt8
  outb 0x1F4 (logicalBlockAddress >>> 8).toUInt8
  outb 0x1F5 (logicalBlockAddress >>> 16).toUInt8
  outb 0x1F7 command

def awaitBlock (fuel : ℕ) : PortProg Unit := do
  ataBusyWait fuel
  ataDrqWait fuel

/-- One block, word by word: `target[j] = in16(0x1F0)`. -/
def receiveWords (target : UInt32) (mem : Memory) : PortProg Memory :=
  (List.range 256).foldlM (fun mem j => do
    let data ← inw 0x1F0
    pure (mem.setElement halfword target j data)) mem

/-- `out16(0x1F0, ((uint16_t*) ptr)[HALF_BLOCK_SIZE*i + j])` -/
def sendWords (ptr : UInt32) (i : ℕ) (mem : Memory) : PortProg Unit :=
  forM (List.range 256) fun j => outw 0x1F0 (mem.element halfword ptr (256 * i + j))

/-- The memory after `read_blocks`. -/
def readBlocks (fuel : ℕ) (ptr logicalBlockAddress : UInt32) (blockCount : UInt8) (mem : Memory) :
    PortProg Memory := do
  sendCommand fuel logicalBlockAddress blockCount 0x20
  (List.range blockCount.toNat).foldlM (fun mem i => do
    awaitBlock fuel
    receiveWords (ptr + .ofNat (512 * i)) mem) mem

def writeBlocks (fuel : ℕ) (ptr logicalBlockAddress : UInt32) (blockCount : UInt8) (mem : Memory) :
    PortProg Unit := do
  sendCommand fuel logicalBlockAddress blockCount 0x30
  forM (List.range blockCount.toNat) fun i => do
    awaitBlock fuel
    sendWords ptr i mem

/-- `read_clusters` of fat32.c. -/
def readClusters (fuel : ℕ) (ptr clusterNumber : UInt32) (clusterCount : UInt8) (mem : Memory) :
    PortProg Memory :=
  readBlocks fuel ptr (clusterToLba clusterNumber) (clusterCount * clusterBlockCount.toUInt8) mem

def writeClusters (fuel : ℕ) (ptr clusterNumber : UInt32) (clusterCount : UInt8) (mem : Memory) :
    PortProg Unit :=
  writeBlocks fuel ptr (clusterToLba clusterNumber) (clusterCount * clusterBlockCount.toUInt8) mem

end Os2024.Disk
