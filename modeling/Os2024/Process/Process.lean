import Os2024.FileSystem.Driver
import Os2024.Memory.Paging

/-! # Process creation and destruction of process.c

Sixteen process slots, each with a control block that records its page directory
and the virtual addresses whose pages it was given. Creation loads an executable
with `read` of fat32.c, whose stores go through the new page directory.
-/

namespace Os2024.Process
open Library.PackedLayout Library.FlagTable Memory FileSystem

-- The literals of the slots rest on this.
instance neZeroProcesses : NeZero 16 := ⟨by decide⟩

/-- The fields of `struct CPURegister` in a row. -/
structure CPURegister where
  edi : UInt32
  esi : UInt32
  ebp : UInt32
  esp : UInt32
  ebx : UInt32
  edx : UInt32
  ecx : UInt32
  eax : UInt32
  gs : UInt32
  fs : UInt32
  es : UInt32
  ds : UInt32
  deriving DecidableEq

def CPURegister.zero : CPURegister := ⟨0, 0, 0, 0, 0, 0, 0, 0, 0, 0, 0, 0⟩

structure Context where
  cpu : CPURegister
  eip : UInt32
  eflags : UInt32
  pageDirectoryVirtualAddr : DirectoryRef
  deriving DecidableEq

inductive ProcessState where
  | running
  | ready
  | blocked
  deriving DecidableEq

structure ProcessMemory where
  virtualAddrUsed : Fin 8 → UInt32
  dataVirtualAddrUsed : Fin 8 → Bool
  pageFrameUsedCount : UInt32

structure ProcessControlBlock where
  pid : UInt32
  name : Bytes 32
  state : ProcessState
  context : Context
  memory : ProcessMemory

def ProcessMemory.record (memory : ProcessMemory) (k : Fin 8) (virtualAddr : UInt32) :
    ProcessMemory where
  virtualAddrUsed := Function.update memory.virtualAddrUsed k virtualAddr
  dataVirtualAddrUsed := Function.update memory.dataVirtualAddrUsed k true
  pageFrameUsedCount := memory.pageFrameUsedCount + 1

def ProcessMemory.zero : ProcessMemory := ⟨fun _ => 0, fun _ => false, 0⟩

def ProcessControlBlock.zero : ProcessControlBlock :=
  ⟨0, fun _ => 0, .running, ⟨.zero, 0, 0, .null⟩, .zero⟩

def processCountMax : UInt32 := 16
def processPageFrameCountMax : UInt32 := 8
def kernelVirtualAddressBase : UInt32 := 0xC0000000
def noProcessRunning : UInt32 := 0xFFFFFFFF
def gdtUserDataSegmentSelector : UInt32 := 0x20
def cpuEflagsBaseFlag : UInt32 := 0x2
def cpuEflagsFlagInterruptEnable : UInt32 := 0x200

def processCreateSuccess : Int32 := 0
def processCreateFailMaxProcessExceeded : Int32 := 1
def processCreateFailInvalidEntrypoint : Int32 := 2
def processCreateFailNotEnoughMemory : Int32 := 3
def processCreateFailFsReadFailure : Int32 := 4

/-- The states of paging.c and process.c together. -/
structure Kernel where
  paging : Paging
  processListUsed : Fin 16 → Bool
  activeProcessCount : UInt32
  currentRunningPid : UInt32
  processList : Fin 16 → ProcessControlBlock

def Kernel.setPcb (s : Kernel) (i : Fin 16) (pcb : ProcessControlBlock) : Kernel :=
  { s with processList := Function.update s.processList i pcb }

def Kernel.directoryOf (s : Kernel) (i : Fin 16) : DirectoryRef :=
  (s.processList i).context.pageDirectoryVirtualAddr

section SetPcb
variable (s : Kernel) (i j : Fin 16) (pcb : ProcessControlBlock)

@[simp] theorem processList_setPcb_self : (s.setPcb i pcb).processList i = pcb :=
  Function.update_self ..

theorem processList_setPcb_of_ne (h : j ≠ i) : (s.setPcb i pcb).processList j = s.processList j :=
  Function.update_of_ne h _ _

@[simp] theorem paging_setPcb : (s.setPcb i pcb).paging = s.paging := rfl

end SetPcb

/-- `none` stands for the answer -1. -/
def processListGetInactiveIndex (s : Kernel) : Option (Fin 16) :=
  firstClear s.processListUsed (List.finRange 16)

/-- The loop of `process_destroy` over the memory record; `flags` are the uninitialised flags
that each call writes back. -/
def freePageFrames (pageDir : DirectoryRef) (memory : ProcessMemory)
    (flags : Fin 8 → PageDirectoryEntryFlag) : List (Fin 8) → Paging → Except Fault Paging
  | [], s => .ok s
  | i :: rest, s =>
    if memory.dataVirtualAddrUsed i = true then
      match pagingFreeUserPageFrame pageDir (memory.virtualAddrUsed i) (flags i) s with
      | .error f => .error f
      | .ok (_, s) => freePageFrames pageDir memory flags rest s
    else freePageFrames pageDir memory flags rest s

def processDestroy (pid : UInt32) (flags : Fin 8 → PageDirectoryEntryFlag) (s : Kernel) :
    Except Fault (Bool × Kernel) :=
  if h : pid.toNat < 16 then
    let i : Fin 16 := ⟨pid.toNat, h⟩
    let pageDir := (s.processList i).context.pageDirectoryVirtualAddr
    match freePageFrames pageDir (s.processList i).memory flags (List.finRange 8) s.paging with
    | .error f => .error f
    | .ok paging =>
      .ok (true,
        { s.setPcb i .zero with
          paging := (pagingFreePageDirectory pageDir paging).2
          processListUsed := Function.update s.processListUsed i false
          activeProcessCount := s.activeProcessCount - 1 })
  else .ok (false, s)

/-- The answer of the allocator is ignored. -/
def processAllocatePageFrame (i : Fin 16) (virtualAddr : UInt32) (s : Kernel) :
    Except Fault Kernel :=
  let pcb := s.processList i
  if pcb.memory.pageFrameUsedCount ≥ processPageFrameCountMax then .ok s else
  match firstClear pcb.memory.dataVirtualAddrUsed (List.finRange 8) with
  | none => .ok s
  | some k =>
    let s := s.setPcb i { pcb with memory := pcb.memory.record k virtualAddr }
    match pagingAllocateUserPageFrame pcb.context.pageDirectoryVirtualAddr virtualAddr s.paging with
    | .error f => .error f
    | .ok (_, paging) => .ok { s with paging := paging }

def ProcessMemory.erase (memory : ProcessMemory) (k : Fin 8) : ProcessMemory where
  virtualAddrUsed := Function.update memory.virtualAddrUsed k 0
  dataVirtualAddrUsed := Function.update memory.dataVirtualAddrUsed k false
  pageFrameUsedCount := memory.pageFrameUsedCount - 1

def ProcessMemory.Records (memory : ProcessMemory) (virtualAddr : UInt32) (k : Fin 8) : Bool :=
  memory.dataVirtualAddrUsed k && memory.virtualAddrUsed k == virtualAddr

/-- Only the first entry with the address is cleared; the answer of the frame manager is ignored. -/
def processDeallocatePageFrame (i : Fin 16) (virtualAddr : UInt32) (flag : PageDirectoryEntryFlag)
    (s : Kernel) : Except Fault Kernel :=
  let pcb := s.processList i
  match (List.finRange 8).find? (pcb.memory.Records virtualAddr) with
  | none => .ok s
  | some k =>
    let s := s.setPcb i { pcb with memory := pcb.memory.erase k }
    match pagingFreeUserPageFrame pcb.context.pageDirectoryVirtualAddr virtualAddr flag s.paging with
    | .error f => .error f
    | .ok (_, paging) => .ok { s with paging := paging }

/-- `_linker_kernel_virtual_addr_start`: the kernel's page below it holds no kernel code or data. -/
def linkerKernelVirtualAddrStart : UInt32 := 0xC0100000

/-- What the processor does with a store of the kernel to one byte. -/
def storeFault (dir : PageDirectory) (addr : UInt32) : Option Fault :=
  if (dir (upperBits addr)).flag.presentBit = false then some .pageFault
  else if linkerKernelVirtualAddrStart ≤ addr then some .kernelOverwrite
  else none

def clusterFault (dir : PageDirectory) (buf : UInt32) : Option Fault :=
  (List.range 2048).findSome? (fun i => storeFault dir (buf + UInt32.ofNat i))

def storeClusters (dir : PageDirectory) (stores : List (UInt32 × Cluster)) : Except Fault Unit :=
  match stores.findSome? (fun st => clusterFault dir st.1) with
  | some f => .error f
  | none => .ok ()

/-- The first frame of the user stack is the one below the kernel. -/
def userStackTop : UInt32 := kernelVirtualAddressBase - 4

def initialContext (pageDir : DirectoryRef) (entrypoint : UInt32) : Context where
  cpu :=
    { CPURegister.zero with
      ds := gdtUserDataSegmentSelector ||| 0x3
      es := gdtUserDataSegmentSelector ||| 0x3
      fs := gdtUserDataSegmentSelector ||| 0x3
      gs := gdtUserDataSegmentSelector ||| 0x3
      ebp := userStackTop
      esp := userStackTop }
  eip := entrypoint
  eflags := cpuEflagsBaseFlag ||| cpuEflagsFlagInterruptEnable
  pageDirectoryVirtualAddr := pageDir

/-- The slot is taken, with `pageDir` as its directory and an empty memory record. -/
def openSlot (s : Kernel) (i : Fin 16) (pageDir : DirectoryRef) (paging : Paging) : Kernel :=
  let pcb := s.processList i
  let pcb :=
    { pcb with
      memory := .zero
      context := { pcb.context with pageDirectoryVirtualAddr := pageDir } }
  { s.setPcb i pcb with
    activeProcessCount := s.activeProcessCount + 1
    processListUsed := Function.update s.processListUsed i true
    paging := paging }

/-- Creation from the moment it has a slot: the slot and a directory are claimed, the directory is
loaded, and one page is allocated for the executable and one for the stack. -/
def claimSlot (request : DriverRequest) (i : Fin 16) (s : Kernel) : Except Fault Kernel :=
  let (newPageDir, paging) := pagingCreateNewPageDirectory s.paging
  match pagingUsePageDirectory newPageDir paging with
  | .error f => .error f
  | .ok paging =>
    match processAllocatePageFrame i request.buf (openSlot s i newPageDir paging) with
    | .error f => .error f
    | .ok s => processAllocatePageFrame i userStackTop s

def initializeProcess (request : DriverRequest) (i : Fin 16) (s : Kernel) : Kernel :=
  let pcb := s.processList i
  s.setPcb i
    { pcb with
      context := initialContext pcb.context.pageDirectoryVirtualAddr request.buf
      pid := UInt32.ofNat i
      state := .ready
      name := fun j => if h : j.val < 8 then request.name ⟨j.val, h⟩ else 0 }

/-- Creation after the claims: the executable is read under the new directory, and the previous
one is restored. A failed read leaves the slot, the directory and the frames claimed. -/
def loadProcess (fs : Storage) (request : DriverRequest) (i : Fin 16) (prevPageDir : DirectoryRef)
    (s : Kernel) : Except Fault (Int32 × Kernel) :=
  match FileSystem.read request fs with
  | .error f => .error f
  | .ok (code, stores) =>
    match storeClusters (s.paging.directory s.paging.cr3) stores with
    | .error f => .error f
    | .ok () =>
      match pagingUsePageDirectory prevPageDir s.paging with
      | .error f => .error f
      | .ok paging =>
        let s := { s with paging := paging }
        if code ≠ 0 then .ok (processCreateFailFsReadFailure, s)
        else .ok (processCreateSuccess, initializeProcess request i s)

def pageFrameCountNeeded (request : DriverRequest) : UInt32 :=
  ceilDiv (request.bufferSize + pageFrameSize) pageFrameSize

def processCreateUserProcess (fs : Storage) (request : DriverRequest) (s : Kernel) :
    Except Fault (Int32 × Kernel) :=
  if s.activeProcessCount ≥ processCountMax then .ok (processCreateFailMaxProcessExceeded, s)
  else if request.buf ≥ kernelVirtualAddressBase then .ok (processCreateFailInvalidEntrypoint, s)
  -- the count of frames is passed where an amount in bytes is expected
  else if pagingAllocateCheck (pageFrameCountNeeded request) s.paging = false ∨
      pageFrameCountNeeded request > processPageFrameCountMax then
    .ok (processCreateFailNotEnoughMemory, s)
  else
    match processListGetInactiveIndex s with
    | none => .error .outOfBounds  -- `_process_list[-1]`
    | some i =>
      match claimSlot request i s with
      | .error f => .error f
      | .ok claimed =>
        loadProcess fs request i (pagingGetCurrentPageDirectoryAddr s.paging) claimed

end Os2024.Process
