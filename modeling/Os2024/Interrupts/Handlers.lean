import Os2024.Disk.PowerLoss
import Os2024.Interrupts.Controller
import Os2024.Interrupts.Gates
import Os2024.Library.Interference
import Os2024.Process.PrivateMemory

/-! # Kernel code, programs and interrupts

Kernel code is a program whose calls are the moments at which devices may come in
between. The processor takes an interrupt in between two calls, or in between two
instructions of a program, when the interrupt flag is set, and a fault at any time. It
leaves what it has interrupted on the stack of the kernel and goes through the gate of
the vector to `main_interrupt_handler`. A store of a system call into the kernel's
page, whose pointer `syscall` does not check, may lead anywhere, and so may an access
of the kernel outside of its tables.
-/

namespace Os2024.Interrupts
open Library.CallTrees Library.Runs Process FileSystem

inductive KernelCall where
  | port (c : PortCall)
  | cli
  | sti
  | allocateFirstPage
  | save (ctx : Context)
  | switch
  | process (event : Process.Event)
  | store (addr : UInt32)

def KernelCall.Answer : KernelCall → Type
  | port c => c.Answer
  | switch => Context
  | _ => Unit

abbrev KernelProg (α : Type) := Program KernelCall.Answer Fault α

/-- Code that only talks to devices. -/
def ports {α : Type} : PortProg α → KernelProg α
  | .ret a => .ret a
  | .fail e => .fail e
  | .call c next => .call (.port c) fun a => ports (next a)

def perform (c : KernelCall) : KernelProg c.Answer := Program.perform c

/-- How kernel code ends: `iret` to what was interrupted, or `process_context_switch`. -/
inductive Return where
  | resume
  | context (ctx : Context)

/-- What a system call does: an event of the processes, or something of the devices. -/
inductive Service where
  | process (event : Process.Event)
  | device (code : PortProg Unit)

/-- `stores` are the addresses, outside of the variables that are meant, to which the call stores: through
pointers of the program, and through indices out of bounds. -/
structure SystemCall where
  service : Service
  stores : List UInt32

/-- Timer interrupts are not asked for, and no call touches the interrupt controllers. -/
def SystemCall.Admissible (call : SystemCall) : Prop :=
  match call.service with
  | .process event => ∀ ctx, event ≠ .tick ctx
  | .device code => code.Uses fun c => ¬OnPics c

def Service.code : Service → KernelProg Unit
  | process event => perform (.process event)
  | device code => ports code

def storeAll (addrs : List UInt32) : KernelProg Unit := addrs.forM fun addr => perform (.store addr)

def syscall (call : SystemCall) : KernelProg Unit := do
  call.service.code
  storeAll call.stores

def keyboardDataPort : UInt16 := 0x60

/-- What becomes of the scancode is the keyboard driver's state. -/
def keyboardIsr : KernelProg Unit := ports do
  let _scancode ← inb keyboardDataPort
  picAck 1

/-- `frame` holds the registers that the stub has saved; other numbers than these three are
ignored. -/
def mainInterruptHandler (intNumber : Fin 64) (frame : Context) (call : SystemCall) :
    KernelProg Return :=
  if intNumber = 0x20 then do
    perform (.save frame)
    ports (picAck irqTimer)
    let next ← perform .switch
    pure (.context next)
  else if intNumber = 0x21 then do
    keyboardIsr
    pure .resume
  else if intNumber = 0x30 then do
    syscall call
    pure .resume
  else pure .resume

def shellRequest : DriverRequest where
  buf := 0
  name := fun i => ([0x73, 0x68, 0x65, 0x6C, 0x6C] : List UInt8).getD i.val 0
  ext := fun _ => 0
  parentClusterNumber := 5
  bufferSize := 0x100000

/-- `fs` is the file system that the first process is created from; `fuel` bounds the waits for the
drive, and `buffer` is where its transfers go. -/
def kernelSetup (fuel : ℕ) (buffer : DiskCall → Disk.Buffer) (fs : Storage) : KernelProg Return := do
  -- `load_gdt` disables interrupts, `initialize_idt` enables them.
  perform .cli
  ports picRemap
  perform .sti
  ports activateKeyboardInterrupt
  let _clusterMap ← ports (Disk.bootProgram fuel buffer)
  perform .allocateFirstPage
  perform (.process (.create fs shellRequest))
  -- `scheduler_init`
  perform .cli
  ports activateTimerInterrupt
  let next ← perform .switch
  pure (.context next)

structure Core (π : Type) where
  flag : Bool
  kernel : Kernel
  pics : π

section Calls
variable {π : Type} (I : Controller π)

def KernelCall.Steps : (c : KernelCall) → Core π → c.Answer → Core π → Prop
  | port c, s, a, t => ∃ p, I.access c s.pics a p ∧ t = { s with pics := p }
  | cli, s, _, t => t = { s with flag := false }
  | sti, s, _, t => t = { s with flag := true }
  | .allocateFirstPage, s, _, t =>
    ∃ k, Process.allocateFirstPage s.kernel = .ok k ∧ t = { s with kernel := k }
  | save ctx, s, _, t =>
    ∃ k, schedulerSaveContextToCurrentRunningPcb ctx s.kernel = .ok k ∧ t = { s with kernel := k }
  | switch, s, a, t =>
    ∃ k, schedulerSwitchToNextProcess s.kernel = .ok (a, k) ∧ t = { s with kernel := k }
  | process event, s, _, t => ∃ k, Step s.kernel event k ∧ t = { s with kernel := k }
  | store addr, s, _, t => addr < kernelVirtualAddressBase ∧ t = s

/-- The faults after which memory is not what the code takes it for. The others end in a loop, or in
page faults without end. -/
def Corrupts (fault : Fault) : Prop :=
  fault = .outOfBounds ∨ fault = .nullDereference ∨ fault = .kernelOverwrite

/-- Calls that lead out of the model. -/
def KernelCall.Escapes : KernelCall → Kernel → Prop
  | .allocateFirstPage, k => ∃ fault, Corrupts fault ∧ Process.allocateFirstPage k = .error fault
  | save ctx, k =>
    ∃ fault, Corrupts fault ∧ schedulerSaveContextToCurrentRunningPcb ctx k = .error fault
  | switch, k => ∃ fault, Corrupts fault ∧ schedulerSwitchToNextProcess k = .error fault
  | process event, k => ∃ fault, Corrupts fault ∧ event.exec k = .error fault
  | store addr, _ => kernelVirtualAddressBase ≤ addr
  | _, _ => False

variable {I}

/-- What a call may touch: a port access the chips, and only `sti` enables interrupts. -/
theorem KernelCall.Steps.frame {c : KernelCall} {s t : Core π} {a : c.Answer} (h : c.Steps I s a t) :
    (t.pics = s.pics ∨ ∃ d b, c = .port d ∧ I.access d s.pics b t.pics) ∧
      (c ≠ .sti → s.flag = false → t.flag = false) := by
  cases c with
  | port d =>
    obtain ⟨p, hp, rfl⟩ := h
    exact ⟨.inr ⟨d, a, rfl, hp⟩, fun _ hflag => hflag⟩
  | cli =>
    obtain rfl : t = { s with flag := false } := h
    exact ⟨.inl rfl, fun _ _ => rfl⟩
  | sti =>
    obtain rfl : t = { s with flag := true } := h
    exact ⟨.inl rfl, fun hne => absurd rfl hne⟩
  | allocateFirstPage =>
    obtain ⟨k, -, rfl⟩ := h
    exact ⟨.inl rfl, fun _ hflag => hflag⟩
  | save ctx =>
    obtain ⟨k, -, rfl⟩ := h
    exact ⟨.inl rfl, fun _ hflag => hflag⟩
  | switch =>
    obtain ⟨k, -, rfl⟩ := h
    exact ⟨.inl rfl, fun _ hflag => hflag⟩
  | process event =>
    obtain ⟨k, -, rfl⟩ := h
    exact ⟨.inl rfl, fun _ hflag => hflag⟩
  | store addr =>
    obtain ⟨-, rfl⟩ := h
    exact ⟨.inl rfl, fun _ hflag => hflag⟩

end Calls

structure Frame where
  flag : Bool
  rest : KernelProg Return

/-- `user` is the program that runs when no kernel code does, once there is one; the kernel code
on top of the stack has interrupted what is below it. -/
structure Processor (π : Type) where
  pics : π
  kernel : Kernel
  user : Option Context
  stack : List Frame

def cpuEflagsFlagIoPrivilege : UInt32 := 0x3000

/-- Interrupts are enabled, and programs may not change that. -/
def Preemptible (eflags : UInt32) : Prop :=
  eflags &&& (cpuEflagsFlagInterruptEnable ||| cpuEflagsFlagIoPrivilege) =
    cpuEflagsFlagInterruptEnable

instance : DecidablePred Preemptible := fun _ => inferInstanceAs (Decidable (_ = _))

def Processor.enabled {π : Type} (m : Processor π) : Bool :=
  match m.stack, m.user with
  | f :: _, _ => f.flag
  | [], some ctx => decide (ctx.eflags &&& cpuEflagsFlagInterruptEnable ≠ 0)
  | [], none => false

inductive ProcessorEvent where
  | raise (line : Fin 16)
  | withdraw (line : Fin 16)
  | accept (vector : UInt8)
  | software (n : UInt8) (call : SystemCall)
  | fault (vector : Fin 32)
  | instruction
  | kernelCode
  | escape

section Steps
variable {π : Type} (I : Controller π) (isrStubTable : Fin 64 → UInt32)

def Enters (vector : UInt8) (frame : Context) (call : SystemCall) (m m' : Processor π) : Prop :=
  ∃ i, (initializeIdt isrStubTable vector).IsInterruptGate ∧
    stubOf isrStubTable (initializeIdt isrStubTable vector) = some i ∧
    m' = { m with stack := ⟨false, mainInterruptHandler i frame call⟩ :: m.stack }

/-- Devices raise their lines and let go of them, the processor takes interrupts, programs call the
kernel and go on, programs and kernel code fault, and kernel code makes its calls and ends. A program
whose I/O privilege level is 0 changes neither this level nor the interrupt flag. -/
inductive ProcessorStep : Processor π → ProcessorEvent → Processor π → Prop
  | raise {m : Processor π} {line : Fin 16} {p : π} (raised : I.raise line m.pics p) :
      ProcessorStep m (.raise line) { m with pics := p }
  | withdraw {m : Processor π} {line : Fin 16} {p : π} (withdrawn : I.withdraw line m.pics p) :
      ProcessorStep m (.withdraw line) { m with pics := p }
  | accept {m m' : Processor π} {vector : UInt8} {p : π} {frame : Context} {call : SystemCall}
      (enabled : m.enabled = true) (taken : I.accept m.pics vector p)
      (interrupted : m.stack = [] → m.user = some frame) (admissible : call.Admissible)
      (enters : Enters isrStubTable vector frame call { m with pics := p } m') :
      ProcessorStep m (.accept vector) m'
  | software {m m' : Processor π} {n : UInt8} {ctx : Context} {call : SystemCall}
      (program : m.stack = []) (user : m.user = some ctx) (admissible : call.Admissible)
      (enters : Enters isrStubTable (softwareVector (initializeIdt isrStubTable) n) ctx call m m') :
      ProcessorStep m (.software n call) m'
  | fault {m m' : Processor π} {vector : Fin 32} {frame : Context} {call : SystemCall}
      (interrupted : m.stack = [] → m.user = some frame) (admissible : call.Admissible)
      (enters : Enters isrStubTable (UInt8.ofNat vector) frame call m m') :
      ProcessorStep m (.fault vector) m'
  | instruction {m : Processor π} {ctx ctx' : Context} (program : m.stack = [])
      (user : m.user = some ctx)
      (flags : ctx.eflags &&& cpuEflagsFlagIoPrivilege = 0 →
        ctx'.eflags &&& (cpuEflagsFlagInterruptEnable ||| cpuEflagsFlagIoPrivilege) =
          ctx.eflags &&& (cpuEflagsFlagInterruptEnable ||| cpuEflagsFlagIoPrivilege)) :
      ProcessorStep m .instruction { m with user := some ctx' }
  | call {m : Processor π} {flag : Bool} {c : KernelCall} {next : c.Answer → KernelProg Return}
      {below : List Frame} {a : c.Answer} {t : Core π} (code : m.stack = ⟨flag, .call c next⟩ :: below)
      (steps : c.Steps I ⟨flag, m.kernel, m.pics⟩ a t) :
      ProcessorStep m .kernelCode
        { m with pics := t.pics, kernel := t.kernel, stack := ⟨t.flag, next a⟩ :: below }
  | resume {m : Processor π} {flag : Bool} {below : List Frame}
      (code : m.stack = ⟨flag, .ret .resume⟩ :: below) :
      ProcessorStep m .kernelCode { m with stack := below }
  | context {m : Processor π} {flag : Bool} {ctx : Context} {below : List Frame}
      (code : m.stack = ⟨flag, .ret (.context ctx)⟩ :: below) :
      ProcessorStep m .kernelCode { m with user := some ctx, stack := [] }
  | escape {m : Processor π} {flag : Bool} {c : KernelCall} {next : c.Answer → KernelProg Return}
      {below : List Frame} (m' : Processor π) (code : m.stack = ⟨flag, .call c next⟩ :: below)
      (escapes : c.Escapes m.kernel) :
      ProcessorStep m .escape m'

/-- No system call stores into the kernel's page, and no kernel code outside of its tables. -/
def ContainedStep (m : Processor π) (e : ProcessorEvent) (m' : Processor π) : Prop :=
  e ≠ .escape ∧ ProcessorStep I isrStubTable m e m'

end Steps

section Gates
variable {π : Type} {isrStubTable : Fin 64 → UInt32} {m m' : Processor π}

theorem Enters.eq (hstubs : Function.Injective isrStubTable) {i : Fin 64} {frame : Context}
    {call : SystemCall} (h : Enters isrStubTable (UInt8.ofNat i) frame call m m') :
    m' = { m with stack := ⟨false, mainInterruptHandler i frame call⟩ :: m.stack } := by
  obtain ⟨j, -, hj, rfl⟩ := h
  rw [stubOf_initializeIdt isrStubTable hstubs] at hj
  rw [Option.some.inj hj]

theorem exists_enters (hstubs : Function.Injective isrStubTable) (i : Fin 64) (frame : Context)
    (call : SystemCall) (m : Processor π) :
    ∃ m', Enters isrStubTable (UInt8.ofNat i) frame call m m' := by
  refine ⟨_, i, ?_, stubOf_initializeIdt isrStubTable hstubs i, rfl⟩
  rw [initializeIdt_stub]
  exact ⟨rfl, rfl, rfl, rfl⟩

theorem Preemptible.enabled {ctx : Context} (h : Preemptible ctx.eflags) (p : π) (k : Kernel) :
    Processor.enabled ⟨p, k, some ctx, []⟩ = true := by
  refine decide_eq_true fun hzero => ?_
  have hmask : cpuEflagsFlagInterruptEnable =
    (cpuEflagsFlagInterruptEnable ||| cpuEflagsFlagIoPrivilege) &&& cpuEflagsFlagInterruptEnable := rfl
  have hflag : ctx.eflags &&& cpuEflagsFlagInterruptEnable = cpuEflagsFlagInterruptEnable := by
    nth_rewrite 1 [hmask]
    rw [← UInt32.and_assoc, h]
    rfl
  exact absurd (hflag.symm.trans hzero) (by decide)

def idleCall : SystemCall := ⟨.device (pure ()), []⟩

theorem idleCall_admissible : idleCall.Admissible := trivial

end Gates

end Os2024.Interrupts
