import Mathlib.Data.UInt
import Os2024.Process.Running

/-! # Registers across a preemption

The interrupt entry of intsetup.s lays the registers out on the kernel stack, the
handler copies them through two packed structs, and context-switch.s loads them
again by byte offsets. The stack is a list of words with the top first, and each
line of the two files is one instruction of a small machine.
-/

namespace Os2024.Process
open FileSystem Memory

inductive Register where
  | eax | ecx | edx | ebx | esp | ebp | esi | edi
  deriving DecidableEq

inductive SegmentRegister where
  | ds | es | fs | gs
  deriving DecidableEq

/-- The processor and the words from the top of its stack on. -/
structure Cpu where
  register : Register → UInt32
  segment : SegmentRegister → UInt16
  cs : UInt16
  ss : UInt16
  eip : UInt32
  eflags : UInt32
  stack : List UInt32

namespace Cpu

def set (c : Cpu) (r : Register) (value : UInt32) : Cpu :=
  { c with register := Function.update c.register r value }

def setSegment (c : Cpu) (r : SegmentRegister) (value : UInt16) : Cpu :=
  { c with segment := Function.update c.segment r value }

def push (c : Cpu) (value : UInt32) : Cpu :=
  { c.set .esp (c.register .esp - 4) with stack := value :: c.stack }

def pop (c : Cpu) : Option (UInt32 × Cpu) :=
  match c.stack with
  | [] => none
  | value :: rest => some (value, { c.set .esp (c.register .esp + 4) with stack := rest })

def stackIndex (c : Cpu) (addr : UInt32) : ℕ := (addr - c.register .esp).toNat / 4

/-- `and` sets the zero flag; its other flags are overwritten by the `popf` that follows it. -/
def setZero (c : Cpu) (value : UInt32) : Cpu :=
  { c with eflags := if value = 0 then c.eflags ||| 0x40 else c.eflags &&& ~~~0x40 }

def zeroFlag (c : Cpu) : Bool := c.eflags &&& 0x40 ≠ 0

/-- The processor leaves a user program for a kernel stack and pushes where the program was.
`eip` is not followed through the kernel, whose instructions come as lists. -/
def takeInterrupt (c : Cpu) (esp0 : UInt32) (kernelStack : List UInt32) : Cpu :=
  let k : Cpu :=
    { c.set .esp esp0 with
      ss := 0x10
      cs := 0x8
      eflags := c.eflags &&& ~~~0x200
      stack := kernelStack }
  ((((k.push c.ss.toUInt32).push (c.register .esp)).push c.eflags).push c.cs.toUInt32).push c.eip

end Cpu

inductive Instruction where
  | push (src : Register)
  | pushImmediate (value : UInt32)
  | pushSegment (src : SegmentRegister)
  | pushad
  | pushf
  | pop (dst : Register)
  | popf
  | load (dst base : Register) (offset : UInt32)
  | store (base : Register) (offset : UInt32) (src : Register)
  | loadSegment (dst : SegmentRegister) (base : Register) (offset : UInt32)
  | moveSegment (dst : SegmentRegister) (src : Register)
  | move (dst src : Register)
  | moveImmediate (dst : Register) (value : UInt32)
  | moveLow (dst : Register) (value : UInt16)
  | lea (dst base : Register) (offset : UInt32)
  | and (dst : Register) (value : UInt32)
  | iret

namespace Instruction

/-- `none` stands for an access below the modelled part of the stack. -/
def exec (c : Cpu) : Instruction → Option Cpu
  | push src => some (c.push (c.register src))
  | pushImmediate value => some (c.push value)
  | pushSegment src => some (c.push (c.segment src).toUInt32)
  | pushad =>
    some ((((((((c.push (c.register .eax)).push (c.register .ecx)).push (c.register .edx)).push
      (c.register .ebx)).push (c.register .esp)).push (c.register .ebp)).push
      (c.register .esi)).push (c.register .edi))
  | pushf => some (c.push c.eflags)
  | pop dst => c.pop.map fun (value, c) => c.set dst value
  | popf => c.pop.map fun (value, c) => { c with eflags := value }
  | load dst base offset => (c.stack[c.stackIndex (c.register base + offset)]?).map (c.set dst)
  | store base offset src =>
    let i := c.stackIndex (c.register base + offset)
    if i < c.stack.length then some { c with stack := c.stack.set i (c.register src) } else none
  | loadSegment dst base offset =>
    (c.stack[c.stackIndex (c.register base + offset)]?).map fun value =>
      c.setSegment dst value.toUInt16
  | moveSegment dst src => some (c.setSegment dst (c.register src).toUInt16)
  | move dst src => some (c.set dst (c.register src))
  | moveImmediate dst value => some (c.set dst value)
  | moveLow dst value => some (c.set dst (c.register dst &&& 0xFFFF0000 ||| value.toUInt32))
  | lea dst base offset => some (c.set dst (c.register base + offset))
  | and dst value => some ((c.set dst (c.register dst &&& value)).setZero (c.register dst &&& value))
  | iret =>
    match c.stack with
    | eip :: cs :: eflags :: rest =>
      let c' := { c with eip := eip, cs := cs.toUInt16, eflags := eflags }
      -- a return to another privilege level takes the stack of that level too
      if cs &&& 0x3 = 0 then some { c'.set .esp (c.register .esp + 12) with stack := rest } else
      match rest with
      | esp :: ss :: rest => some { c'.set .esp esp with ss := ss.toUInt16, stack := rest }
      | _ => none
    | _ => none

end Instruction

def execAll (program : List Instruction) (c : Cpu) : Option Cpu :=
  program.foldlM Instruction.exec c

def irqTimer : UInt32 := 0x20

/-- `interrupt_handler_32`: a dummy error code and the vector. -/
def interruptHandler : List Instruction := [.pushImmediate 0, .pushImmediate irqTimer]

/-- `call_generic_handler` up to its conditional jump. -/
def callGenericHandler : List Instruction :=
  [.pushSegment .ds, .pushSegment .es, .pushSegment .fs, .pushSegment .gs, .pushad, .pushf,
    .push .eax, .load .eax .esp 52, .and .eax 0x3]

/-- Skipped when the zero flag is set. -/
def interprivilegeInterrupt : List Instruction := [.load .eax .esp 76, .store .esp 20 .eax]

def segmentRegisterSetup : List Instruction :=
  [.moveLow .eax 0x10, .moveSegment .ds .eax, .moveSegment .es .eax, .moveSegment .fs .eax,
    .moveSegment .gs .eax, .pop .eax, .popf, .move .ebp .esp]

/-- From the first instruction of the handler to its call of `main_interrupt_handler`. -/
def enterHandler (c : Cpu) : Option Cpu :=
  (execAll (interruptHandler ++ callGenericHandler) c).bind fun c =>
    (if c.zeroFlag then some c else execAll interprivilegeInterrupt c).bind
      (execAll segmentRegisterSetup)

structure InterruptFrame where
  cpu : CPURegister
  intNumber : UInt32
  errorCode : UInt32
  eip : UInt32
  cs : UInt32
  eflags : UInt32

/-- `struct InterruptFrame` read from the words of the stack. -/
def InterruptFrame.ofWords : List UInt32 → Option InterruptFrame
  | edi :: esi :: ebp :: esp :: ebx :: edx :: ecx :: eax :: gs :: fs :: es :: ds ::
      intNumber :: errorCode :: eip :: cs :: eflags :: _ =>
    some ⟨⟨edi, esi, ebp, esp, ebx, edx, ecx, eax, gs, fs, es, ds⟩, intNumber, errorCode, eip, cs,
      eflags⟩
  | _ => none

/-- The context that `main_interrupt_handler` constructs; its page directory stays unset. -/
def InterruptFrame.context (frame : InterruptFrame) : Context :=
  ⟨frame.cpu, frame.eip, frame.eflags, .null⟩

/-- `struct Context` as an argument on the stack. -/
def Context.words (address : DirectoryRef → UInt32) (c : Context) : List UInt32 :=
  [c.cpu.edi, c.cpu.esi, c.cpu.ebp, c.cpu.esp, c.cpu.ebx, c.cpu.edx, c.cpu.ecx, c.cpu.eax,
    c.cpu.gs, c.cpu.fs, c.cpu.es, c.cpu.ds, c.eip, c.eflags, address c.pageDirectoryVirtualAddr]

/-- SS, ESP, EFLAGS, CS and EIP for `iret`. -/
def setupIretStack : List Instruction :=
  [.lea .ecx .esp 4,
    .moveImmediate .eax 0x23, .push .eax, .load .eax .ecx 12, .push .eax, .load .eax .ecx 52,
    .push .eax, .moveImmediate .eax 0x1B, .push .eax, .load .eax .ecx 48, .push .eax]

def loadAllRegisters : List Instruction :=
  [.load .edi .ecx 0, .load .esi .ecx 4, .load .ebp .ecx 8, .load .ebx .ecx 16,
    .load .edx .ecx 20, .load .eax .ecx 28, .loadSegment .gs .ecx 32, .loadSegment .fs .ecx 36,
    .loadSegment .es .ecx 40, .loadSegment .ds .ecx 44, .load .ecx .ecx 24]

def processContextSwitch : List Instruction := setupIretStack ++ loadAllRegisters ++ [.iret]

namespace Cpu
variable {c : Cpu} {r r' : Register} {value : UInt32}

@[simp] theorem register_set_self : (c.set r value).register r = value := by simp [set]
@[simp] theorem register_set_of_ne (h : r' ≠ r) : (c.set r value).register r' = c.register r' := by
  simp [set, h]
@[simp] theorem stack_set : (c.set r value).stack = c.stack := rfl
@[simp] theorem segment_set : (c.set r value).segment = c.segment := rfl

@[simp] theorem register_push_esp : (c.push value).register .esp = c.register .esp - 4 := by
  simp [push]
@[simp] theorem register_push_of_ne (h : r ≠ .esp) :
    (c.push value).register r = c.register r := by
  simp [push, h]
@[simp] theorem stack_push : (c.push value).stack = value :: c.stack := rfl
@[simp] theorem segment_push : (c.push value).segment = c.segment := rfl

def PointsTo (c : Cpu) (base : Register) (depth : ℕ) : Prop :=
  c.register base = c.register .esp + UInt32.ofNat (4 * depth)

variable {base : Register} {depth : ℕ}

theorem pointsTo_esp (c : Cpu) : c.PointsTo .esp 0 := by
  simp [PointsTo]

namespace PointsTo

theorem push (h : c.PointsTo base depth) (other : base ≠ .esp) (value : UInt32) :
    (c.push value).PointsTo base (depth + 1) := by
  unfold PointsTo at *
  rw [register_push_of_ne other, register_push_esp, h, Nat.mul_add, UInt32.ofNat_add]
  grind

theorem set (h : c.PointsTo base depth) (other : base ≠ r) (kept : r ≠ .esp) (value : UInt32) :
    (c.set r value).PointsTo base depth := by
  unfold PointsTo at *
  rw [register_set_of_ne other, register_set_of_ne kept.symm, h]

theorem setSegment (h : c.PointsTo base depth) (r : SegmentRegister) (value : UInt16) :
    (c.setSegment r value).PointsTo base depth := h

theorem stackIndex_eq (h : c.PointsTo base depth) (k : ℕ) (small : depth + k < 1024) :
    c.stackIndex (c.register base + UInt32.ofNat (4 * k)) = depth + k := by
  have distance : c.register base + UInt32.ofNat (4 * k) - c.register .esp =
      UInt32.ofNat (4 * (depth + k)) := by
    rw [h, Nat.mul_add, UInt32.ofNat_add]
    grind
  rw [stackIndex, distance, UInt32.toNat_ofNat', Nat.mod_eq_of_lt (by omega)]
  omega

end PointsTo
end Cpu

open Cpu

theorem execAll_cons {i : Instruction} {c c' : Cpu} (h : i.exec c = some c')
    (program : List Instruction) : execAll (i :: program) c = execAll program c' := by
  simp [execAll, h]

theorem execAll_append (p q : List Instruction) (c : Cpu) :
    execAll (p ++ q) c = (execAll p c).bind (execAll q) := by
  simp only [execAll, List.foldlM_append]
  rfl

variable {c : Cpu} {base : Register} {depth : ℕ} {value : UInt32}

theorem exec_load (offset : UInt32) (k : ℕ) (h : c.PointsTo base depth)
    (aligned : offset = UInt32.ofNat (4 * k)) (small : depth + k < 1024) (found : c.stack[depth + k]? = some value) (dst : Register) :
    (Instruction.load dst base offset).exec c = some (c.set dst value) := by
  rw [Instruction.exec, aligned, h.stackIndex_eq k small, found, Option.map_some]

theorem exec_loadSegment (offset : UInt32) (k : ℕ) (h : c.PointsTo base depth)
    (aligned : offset = UInt32.ofNat (4 * k)) (small : depth + k < 1024) (found : c.stack[depth + k]? = some value) (dst : SegmentRegister) :
    (Instruction.loadSegment dst base offset).exec c = some (c.setSegment dst value.toUInt16) := by
  rw [Instruction.exec, aligned, h.stackIndex_eq k small, found, Option.map_some]

theorem exec_store (offset : UInt32) (k : ℕ) (h : c.PointsTo base depth)
    (aligned : offset = UInt32.ofNat (4 * k)) (small : depth + k < 1024)
    (inside : depth + k < c.stack.length) (src : Register) :
    (Instruction.store base offset src).exec c =
      some { c with stack := c.stack.set (depth + k) (c.register src) } := by
  rw [Instruction.exec]
  simp only [aligned, h.stackIndex_eq k small]
  rw [if_pos inside]

def Cpu.pushThrough (c : Cpu) (value : UInt32) : Cpu := (c.set .eax value).push value

theorem Cpu.PointsTo.pushThrough (h : c.PointsTo .ecx depth) (value : UInt32) :
    (c.pushThrough value).PointsTo .ecx (depth + 1) :=
  (h.set (by decide) (by decide) value).push (by decide) value

theorem execAll_pushConstant (value : UInt32) (program : List Instruction) (c : Cpu) :
    execAll (.moveImmediate .eax value :: .push .eax :: program) c =
      execAll program (c.pushThrough value) := by
  rw [execAll_cons rfl, execAll_cons rfl, register_set_self]
  rfl

theorem execAll_pushArgument (offset : UInt32) (k : ℕ) (h : c.PointsTo .ecx depth)
    (aligned : offset = UInt32.ofNat (4 * k)) (small : depth + k < 1024) (found : c.stack[depth + k]? = some value)
    (program : List Instruction) :
    execAll (.load .eax .ecx offset :: .push .eax :: program) c =
      execAll program (c.pushThrough value) := by
  rw [execAll_cons (exec_load offset k h aligned small found .eax), execAll_cons rfl, register_set_self]
  rfl

variable {ret : UInt32} {rest : List UInt32} {ctx : Context}
  {address : DirectoryRef → UInt32}

/-- Five words lie above the argument when the stack for `iret` is complete. -/
theorem setupIretStack_eq (h : c.stack = ret :: ctx.words address ++ rest) :
    ∃ c', execAll setupIretStack c = some c' ∧ c'.PointsTo .ecx 6 ∧
      c'.stack = ctx.eip :: 0x1B :: ctx.eflags :: ctx.cpu.esp :: 0x23 :: c.stack := by
  have start : (c.set .ecx (c.register .esp + 4)).PointsTo .ecx 1 := by
    simp [PointsTo]
  have h₁ := start.pushThrough 0x23
  have h₂ := h₁.pushThrough ctx.cpu.esp
  have h₃ := h₂.pushThrough ctx.eflags
  have h₄ := h₃.pushThrough 0x1B
  refine ⟨_, ?_, h₄.pushThrough ctx.eip, rfl⟩
  rw [setupIretStack, execAll_cons rfl, execAll_pushConstant,
    execAll_pushArgument 12 3 h₁ rfl (by decide) (congrArg (·[4]?) h),
    execAll_pushArgument 52 13 h₂ rfl (by decide) (congrArg (·[14]?) h),
    execAll_pushConstant,
    execAll_pushArgument 48 12 h₄ rfl (by decide) (congrArg (·[13]?) h)]
  rfl

/-- `mov ecx, [ecx+24]` comes last, so the argument stays in reach of every load. -/
theorem loadAllRegisters_eq (h : c.PointsTo .ecx 6)
    (hs : c.stack.drop 6 = ctx.words address ++ rest) :
    execAll loadAllRegisters c = some ((((((((((((c.set .edi ctx.cpu.edi).set .esi ctx.cpu.esi).set
      .ebp ctx.cpu.ebp).set .ebx ctx.cpu.ebx).set .edx ctx.cpu.edx).set .eax ctx.cpu.eax).setSegment
      .gs ctx.cpu.gs.toUInt16).setSegment .fs ctx.cpu.fs.toUInt16).setSegment
      .es ctx.cpu.es.toUInt16).setSegment .ds ctx.cpu.ds.toUInt16).set .ecx ctx.cpu.ecx)) := by
  have word (k : ℕ) : c.stack[6 + k]? = (ctx.words address ++ rest)[k]? := by
    rw [← hs, List.getElem?_drop]
  have h₁ := h.set (r := .edi) (by decide) (by decide) ctx.cpu.edi
  have h₂ := h₁.set (r := .esi) (by decide) (by decide) ctx.cpu.esi
  have h₃ := h₂.set (r := .ebp) (by decide) (by decide) ctx.cpu.ebp
  have h₄ := h₃.set (r := .ebx) (by decide) (by decide) ctx.cpu.ebx
  have h₅ := h₄.set (r := .edx) (by decide) (by decide) ctx.cpu.edx
  have h₆ := h₅.set (r := .eax) (by decide) (by decide) ctx.cpu.eax
  have h₇ := h₆.setSegment .gs ctx.cpu.gs.toUInt16
  have h₈ := h₇.setSegment .fs ctx.cpu.fs.toUInt16
  have h₉ := h₈.setSegment .es ctx.cpu.es.toUInt16
  have h₁₀ := h₉.setSegment .ds ctx.cpu.ds.toUInt16
  rw [loadAllRegisters,
    execAll_cons (exec_load 0 0 h rfl (by decide) (word 0) _),
    execAll_cons (exec_load 4 1 h₁ rfl (by decide) (word 1) _),
    execAll_cons (exec_load 8 2 h₂ rfl (by decide) (word 2) _),
    execAll_cons (exec_load 16 4 h₃ rfl (by decide) (word 4) _),
    execAll_cons (exec_load 20 5 h₄ rfl (by decide) (word 5) _),
    execAll_cons (exec_load 28 7 h₅ rfl (by decide) (word 7) _),
    execAll_cons (exec_loadSegment 32 8 h₆ rfl (by decide) (word 8) _),
    execAll_cons (exec_loadSegment 36 9 h₇ rfl (by decide) (word 9) _),
    execAll_cons (exec_loadSegment 40 10 h₈ rfl (by decide) (word 10) _),
    execAll_cons (exec_loadSegment 44 11 h₉ rfl (by decide) (word 11) _),
    execAll_cons (exec_load 24 6 h₁₀ rfl (by decide) (word 6) _)]
  rfl

/-- The context is in the registers after `iret`. -/
structure Loaded (c : Cpu) (ctx : Context) : Prop where
  edi : c.register .edi = ctx.cpu.edi
  esi : c.register .esi = ctx.cpu.esi
  ebp : c.register .ebp = ctx.cpu.ebp
  esp : c.register .esp = ctx.cpu.esp
  ebx : c.register .ebx = ctx.cpu.ebx
  edx : c.register .edx = ctx.cpu.edx
  ecx : c.register .ecx = ctx.cpu.ecx
  eax : c.register .eax = ctx.cpu.eax
  gs : c.segment .gs = ctx.cpu.gs.toUInt16
  fs : c.segment .fs = ctx.cpu.fs.toUInt16
  es : c.segment .es = ctx.cpu.es.toUInt16
  ds : c.segment .ds = ctx.cpu.ds.toUInt16
  eip : c.eip = ctx.eip
  eflags : c.eflags = ctx.eflags
  cs : c.cs = 0x1B
  ss : c.ss = 0x23

theorem processContextSwitch_loaded (h : c.stack = ret :: ctx.words address ++ rest) :
    ∃ c', execAll processContextSwitch c = some c' ∧ Loaded c' ctx := by
  obtain ⟨c₁, h₁, pointer, stack⟩ := setupIretStack_eq h
  have argument : c₁.stack.drop 6 = ctx.words address ++ rest := by
    rw [stack, h]
    rfl
  rw [processContextSwitch, execAll_append, execAll_append, h₁, Option.bind_some,
    loadAllRegisters_eq pointer argument, Option.bind_some, execAll, List.foldlM_cons,
    Instruction.exec]
  simp only [stack_set, setSegment, stack]
  exact ⟨_, rfl, rfl, rfl, rfl, rfl, rfl, rfl, rfl, rfl, rfl, rfl, rfl, rfl, rfl, rfl, rfl, rfl⟩

theorem setZero_zeroFlag (c : Cpu) {value : UInt32} (h : value ≠ 0) :
    (c.setZero value).zeroFlag = false := by
  have cleared : ~~~(0x40 : UInt32) &&& 0x40 = 0 := by decide
  simp only [setZero, zeroFlag, if_neg h, UInt32.and_assoc, cleared, UInt32.and_zero]
  rfl

def Cpu.frameWords (c : Cpu) : List UInt32 :=
  [c.register .edi, c.register .esi, c.register .ebp, c.register .esp, c.register .ebx,
    c.register .edx, c.register .ecx, c.register .eax, (c.segment .gs).toUInt32,
    (c.segment .fs).toUInt32, (c.segment .es).toUInt32, (c.segment .ds).toUInt32, irqTimer, 0,
    c.eip, c.cs.toUInt32, c.eflags, c.register .esp, c.ss.toUInt32]

/-- `pushad` has left the kernel's `esp` in the fourth word of the frame, two words below. -/
theorem pushed_stack (user : Cpu) (esp0 : UInt32) (kernelStack : List UInt32) :
    ∃ c old flags, execAll (interruptHandler ++ callGenericHandler.take 7)
        (user.takeInterrupt esp0 kernelStack) = some c ∧
      c.stack = user.register .eax :: flags :: user.frameWords.set 3 old ++ kernelStack :=
  ⟨_, _, _, rfl, rfl⟩

theorem enterHandler_stack {user : Cpu} (hds : user.segment .ds &&& 3 = 3) (esp0 : UInt32)
    (kernelStack : List UInt32) :
    ∃ c, enterHandler (user.takeInterrupt esp0 kernelStack) = some c ∧
      c.stack = user.frameWords ++ kernelStack := by
  obtain ⟨c, old, flags, pushed, stack⟩ := pushed_stack user esp0 kernelStack
  have ring : (user.segment .ds).toUInt32 &&& 3 ≠ 0 := by
    have low : (user.segment .ds).toUInt32 &&& 3 = 3 := congrArg UInt16.toUInt32 hds
    rw [low]
    decide
  have loaded := exec_load 52 13 c.pointsTo_esp rfl (by decide) (congrArg (·[13]?) stack) .eax
  let c₁ := (c.set .eax (user.segment .ds).toUInt32).set .eax ((user.segment .ds).toUInt32 &&& 3)
  have entered : execAll (interruptHandler ++ callGenericHandler)
      (user.takeInterrupt esp0 kernelStack) =
        some (c₁.setZero ((user.segment .ds).toUInt32 &&& 3)) := by
    change execAll ((interruptHandler ++ callGenericHandler.take 7) ++ callGenericHandler.drop 7) _
      = _
    rw [execAll_append, pushed, Option.bind_some]
    change execAll [_, _] c = _
    rw [execAll_cons loaded, execAll_cons rfl, register_set_self]
    rfl
  let c₂ := c₁.setZero ((user.segment .ds).toUInt32 &&& 3)
  have stack₂ : c₂.stack = user.register .eax :: flags :: user.frameWords.set 3 old ++ kernelStack :=
    stack
  have patched : execAll interprivilegeInterrupt c₂ =
      some { c₂.set .eax (user.register .esp) with
        stack := user.register .eax :: flags :: user.frameWords ++ kernelStack } := by
    rw [interprivilegeInterrupt,
      execAll_cons (exec_load 76 19 c₂.pointsTo_esp rfl (by decide) (congrArg (·[19]?) stack₂) _),
      execAll_cons (exec_store 20 5 (pointsTo_esp _) rfl (by decide)
        (by rw [stack_set, stack₂]; simp [frameWords]) _),
      register_set_self, stack_set, stack₂]
    rfl
  rw [enterHandler, entered, Option.bind_some, setZero_zeroFlag c₁ ring]
  change ∃ c', (execAll interprivilegeInterrupt c₂).bind _ = some c' ∧ _
  rw [patched]
  exact ⟨_, rfl, rfl⟩

/-- The context that `main_interrupt_handler` makes of the words on the stack. -/
theorem ofWords_frameWords (user : Cpu) (kernelStack : List UInt32) :
    ∃ frame, InterruptFrame.ofWords (user.frameWords ++ kernelStack) = some frame ∧
      frame.intNumber = irqTimer ∧ ∀ c : Cpu, Loaded c frame.context →
        c.register = user.register ∧ c.segment = user.segment ∧ c.eip = user.eip ∧
          c.eflags = user.eflags ∧ c.cs = 0x1B ∧ c.ss = 0x23 := by
  refine ⟨_, rfl, rfl, fun c h => ⟨?_, ?_, h.eip, h.eflags, h.cs, h.ss⟩⟩
  · funext r
    cases r with
    | eax => exact h.eax
    | ecx => exact h.ecx
    | edx => exact h.edx
    | ebx => exact h.ebx
    | esp => exact h.esp
    | ebp => exact h.ebp
    | esi => exact h.esi
    | edi => exact h.edi
  · funext r
    cases r with
    | ds => exact h.ds.trans (UInt16.toUInt16_toUInt32 _)
    | es => exact h.es.trans (UInt16.toUInt16_toUInt32 _)
    | fs => exact h.fs.trans (UInt16.toUInt16_toUInt32 _)
    | gs => exact h.gs.trans (UInt16.toUInt16_toUInt32 _)

theorem Loaded.of_save {c : Cpu} {base ctx : Context} (h : Loaded c (base.save ctx)) :
    Loaded c ctx := by
  obtain ⟨edi, esi, ebp, esp, ebx, edx, ecx, eax, gs, fs, es, ds, eip, eflags, cs, ss⟩ := h
  exact ⟨edi, esi, ebp, esp, ebx, edx, ecx, eax, gs, fs, es, ds, eip, eflags, cs, ss⟩

theorem switch_handed {s s' : Kernel} {i : Fin 16} {handed : Context}
    (h : schedulerSwitchToNextProcess s = .ok (handed, s'))
    (hi : s'.currentRunningPid = UInt32.ofNat i) : handed = (s.processList i).context := by
  rw [schedulerSwitchToNextProcess] at h
  dsimp only at h
  split at h
  · cases h
  · rename_i j hj
    split at h
    · cases h
    · obtain ⟨rfl, rfl⟩ := Prod.mk.inj (Except.ok.inj h)
      have same : j = i := by
        apply Fin.ext
        rw [← ofNat_slot_toNat j, ← ofNat_slot_toNat i]
        exact congrArg UInt32.toNat hi
      rw [same]

/-- A preempted user program has its registers back when it is selected again. -/
theorem preemption_transparent {user : Cpu} (hds : user.segment .ds &&& 3 = 3) (esp0 : UInt32)
    (kernelStack : List UInt32) :
    ∃ c frame, enterHandler (user.takeInterrupt esp0 kernelStack) = some c ∧
      InterruptFrame.ofWords c.stack = some frame ∧ frame.intNumber = irqTimer ∧
      ∀ (s : Kernel) (i : Fin 16), s.currentRunningPid = UInt32.ofNat i →
        ∃ s₁, schedulerSaveContextToCurrentRunningPcb frame.context s = .ok s₁ ∧
          ∀ (s₂ s₃ : Kernel) (handed : Context),
            (s₂.processList i).context = (s₁.processList i).context →
            schedulerSwitchToNextProcess s₂ = .ok (handed, s₃) →
            s₃.currentRunningPid = UInt32.ofNat i →
            ∀ (caller : Cpu) (ret : UInt32) (address : DirectoryRef → UInt32)
              (rest : List UInt32), caller.stack = ret :: handed.words address ++ rest →
              ∃ back, execAll processContextSwitch caller = some back ∧
                back.register = user.register ∧ back.segment = user.segment ∧
                back.eip = user.eip ∧ back.eflags = user.eflags ∧ back.cs = 0x1B ∧
                back.ss = 0x23 := by
  obtain ⟨c, entered, stack⟩ := enterHandler_stack hds esp0 kernelStack
  obtain ⟨frame, words, timer, restored⟩ := ofWords_frameWords user kernelStack
  refine ⟨c, frame, entered, stack ▸ words, timer, fun s i hi => ⟨_, save_eq frame.context hi, ?_⟩⟩
  intro s₂ s₃ handed untouched selected running caller ret address rest argument
  obtain ⟨back, executed, loaded⟩ := processContextSwitch_loaded argument
  have saved : handed = (s.processList i).context.save frame.context := by
    rw [switch_handed selected running, untouched, context_saveTo_self]
  rw [saved] at loaded
  exact ⟨back, executed, restored back loaded.of_save⟩

def someUser : Cpu where
  register := fun _ => 7
  segment := fun _ => 0x23
  cs := 0x1B
  ss := 0x23
  eip := 0x1000
  eflags := 0x202
  stack := []

theorem preemption_transparent_note : ∃ c frame s₀ handed₀ s s₁ handed s₂,
    enterHandler (someUser.takeInterrupt 0xC0400000 []) = some c ∧
    InterruptFrame.ofWords c.stack = some frame ∧
    processCreateUserProcess noteStorage noteProgram kernelStart = .ok (processCreateSuccess, s₀) ∧
    timerTick someContext s₀ = .ok (handed₀, s) ∧
    schedulerSaveContextToCurrentRunningPcb frame.context s = .ok s₁ ∧
    schedulerSwitchToNextProcess s₁ = .ok (handed, s₂) ∧
    ∃ back, execAll processContextSwitch
        { someUser with stack := 0 :: handed.words (fun _ => 0) ++ [] } = some back ∧
      back.register = someUser.register ∧ back.eip = 0x1000 := by
  have userData : someUser.segment .ds &&& 3 = 3 := by decide
  obtain ⟨c, frame, entered, words, -, kernel⟩ := preemption_transparent userData 0xC0400000 []
  obtain ⟨s₀, handed₀, s, s₃, hcreate, htick, -, hrunning, hd, hidle, -⟩ :=
    terminate_note someContext (fun _ => userFlag)
  have hs : Isolated s := (kernelStart_isolated.create hcreate).tick htick
  obtain ⟨s₁, saved, resumed⟩ := kernel s 0 hrunning.running
  obtain ⟨handed, s₂, again⟩ := timerTick_returns hs hrunning.used saved
  obtain ⟨t, i, ht, hused, -, -, hs₂⟩ := timerTick_outcome again
  have only : i = 0 := by
    by_contra other
    have kept : s₃.processListUsed i = s.processListUsed i := by
      rw [hd.used, Function.update_of_ne other]
    rw [ht.used, ← kept, hidle i] at hused
    cases hused
  rw [timerTick, saved] at again
  have running : s₂.currentRunningPid = UInt32.ofNat (0 : Fin 16) := by
    rw [hs₂, only]
    rfl
  obtain ⟨back, executed, register, -, eip, -⟩ := resumed s₁ s₂ handed rfl again running
    { someUser with stack := 0 :: handed.words (fun _ => 0) ++ [] } 0 (fun _ => 0) [] rfl
  exact ⟨c, frame, s₀, handed₀, s, s₁, handed, s₂, entered, words, hcreate, htick, saved, again, back,
    executed, register, eip⟩

end Os2024.Process
