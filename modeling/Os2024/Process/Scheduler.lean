import Os2024.Process.Process

/-! # The round-robin scheduler of scheduler.c and the events of the kernel

The timer saves the interrupted context to the slot of the running process and
switches to the next used slot. System calls create and destroy processes. The
kernel changes by these events only.
-/

namespace Os2024.Process
open Library.FlagTable Memory FileSystem

/-- The handler leaves the page directory of its context unset; only the registers are saved. -/
def schedulerSaveContextToCurrentRunningPcb (ctx : Context) (s : Kernel) : Except Fault Kernel :=
  if s.currentRunningPid = noProcessRunning then .ok s
  else if h : s.currentRunningPid.toNat < 16 then
    let i : Fin 16 := ⟨s.currentRunningPid.toNat, h⟩
    let pcb := s.processList i
    .ok (s.setPcb i
      { pcb with
        state := .ready
        context :=
          { pcb.context with
            cpu := ctx.cpu
            eip := ctx.eip
            eflags := ctx.eflags } })
  else .error .outOfBounds

def nextIndex (index : UInt32) : Fin 16 :=
  ⟨((index + 1) % processCountMax).toNat, by
    rw [UInt32.toNat_mod]
    exact Nat.mod_lt _ (by decide)⟩

/-- The search for a used slot; sixteen steps visit them all. -/
def findNextUsed (used : Fin 16 → Bool) : ℕ → UInt32 → Option (Fin 16)
  | 0, _ => none
  | fuel + 1, index =>
    let i := nextIndex index
    if used i = true then some i else findNextUsed used fuel (UInt32.ofNat i)

/-- The context handed to `process_context_switch`, and the state it is handed in. -/
def schedulerSwitchToNextProcess (s : Kernel) : Except Fault (Context × Kernel) :=
  let index := if s.currentRunningPid = noProcessRunning then 0 else s.currentRunningPid
  match findNextUsed s.processListUsed 16 index with
  | none => .error .diverges
  | some i =>
    let nextProcess := s.processList i
    match pagingUsePageDirectory nextProcess.context.pageDirectoryVirtualAddr s.paging with
    | .error f => .error f
    | .ok paging =>
      .ok (nextProcess.context,
        { s.setPcb i { nextProcess with state := .running } with
          paging := paging
          currentRunningPid := UInt32.ofNat i })

def timerTick (ctx : Context) (s : Kernel) : Except Fault (Context × Kernel) :=
  match schedulerSaveContextToCurrentRunningPcb ctx s with
  | .error f => .error f
  | .ok s => schedulerSwitchToNextProcess s

/-- What happens to the kernel. The file system of a creation is the one at that moment, and the
flags of a destruction are the uninitialised ones of its frees. -/
inductive Event where
  | create (fs : Storage) (request : DriverRequest)
  | terminate (flags : Fin 8 → PageDirectoryEntryFlag)
  | kill (pid : UInt32) (flags : Fin 8 → PageDirectoryEntryFlag)
  | tick (ctx : Context)

def Event.victim (event : Event) (s : Kernel) : Option UInt32 :=
  match event with
  | .terminate _ => some s.currentRunningPid
  | .kill pid _ => some pid
  | _ => none

def Event.exec (event : Event) (s : Kernel) : Except Fault Kernel :=
  match event with
  | .create fs request => (processCreateUserProcess fs request s).map Prod.snd
  | .terminate flags => (processDestroy s.currentRunningPid flags s).map Prod.snd
  | .kill pid flags => (processDestroy pid flags s).map Prod.snd
  | .tick ctx => (timerTick ctx s).map Prod.snd

def Step (s : Kernel) (event : Event) (s' : Kernel) : Prop := event.exec s = .ok s'

def initialKernel : Kernel where
  paging := initialPaging
  processListUsed := fun _ => false
  activeProcessCount := 0
  currentRunningPid := noProcessRunning
  processList := fun _ => .zero

/-- The first thing `kernel_setup` does to this state. -/
def allocateFirstPage (s : Kernel) : Except Fault Kernel :=
  match pagingAllocateUserPageFrame .kernel 0 s.paging with
  | .error f => .error f
  | .ok (_, paging) => .ok { s with paging := paging }

end Os2024.Process
