import Os2024.FileSystem.Layout
import Os2024.Ports

/-! # The interrupt controller

Two 8259A chips pass the requests of the devices to the processor, the second one
through an input of the first. Interrupt.c programs them through their command and
data ports; scheduler.c does so for the timer. The kernel only relies on what is
documented of the first chip: how the words that it gets change its registers, that it
passes on the requests of open lines, one at a time until it is told that the
interrupt has been handled, and that a request which goes away at the last moment
reads as one of line 7.
-/

namespace Os2024.Interrupts
open Library.CallTrees

def pic1Offset : UInt8 := 0x20
def pic2Offset : UInt8 := 0x28
def pic1Command : UInt16 := 0x20
def pic1Data : UInt16 := 0x21
def pic2Command : UInt16 := 0xA0
def pic2Data : UInt16 := 0xA1
def picAckWord : UInt8 := 0x20
def picDisableAllMask : UInt8 := 0xFF
def icw1Icw4 : UInt8 := 0x01
def icw1Init : UInt8 := 0x10
def icw4Mode8086 : UInt8 := 0x01
def irqTimer : UInt8 := 0
def irqKeyboard : UInt8 := 1
def pitCommandRegisterPio : UInt16 := 0x43
def pitChannel0DataPio : UInt16 := 0x40
def pitTimerCounter : UInt32 := 1193182 / 1000
def pitCommandValue : UInt8 :=
  (0b0 : UInt8) ||| (0b011 : UInt8) <<< 1 ||| (0b11 : UInt8) <<< 4 ||| (0b00 : UInt8) <<< 6

def ioWait : PortProg Unit := outb 0x80 0

def picAck (irq : UInt8) : PortProg Unit := do
  if irq ≥ 8 then outb pic2Command picAckWord
  outb pic1Command picAckWord

def picRemap : PortProg Unit := do
  outb pic1Command (icw1Init ||| icw1Icw4)
  ioWait
  outb pic2Command (icw1Init ||| icw1Icw4)
  ioWait
  outb pic1Data pic1Offset
  ioWait
  outb pic2Data pic2Offset
  ioWait
  outb pic1Data 0b0100
  ioWait
  outb pic2Data 0b0010
  ioWait
  outb pic1Data icw4Mode8086
  ioWait
  outb pic2Data icw4Mode8086
  ioWait
  outb pic1Data picDisableAllMask
  outb pic2Data picDisableAllMask

/-- Clears the bit of one line in the mask of the first chip. -/
def activateLine (irq : UInt8) : PortProg Unit := do
  let mask ← inb pic1Data
  outb pic1Data (mask &&& ~~~((1 : UInt8) <<< irq))

def activateKeyboardInterrupt : PortProg Unit := activateLine irqKeyboard

/-- Without its `cli`. -/
def activateTimerInterrupt : PortProg Unit := do
  outb pitCommandRegisterPio pitCommandValue
  outb pitChannel0DataPio (pitTimerCounter &&& 0xFF).toUInt8
  outb pitChannel0DataPio (pitTimerCounter >>> 8 &&& 0xFF).toUInt8
  activateLine irqTimer

/-- How far the initialisation of a chip has got. -/
inductive Init where
  | ready
  | vectorOffset
  | wiring
  | mode
  deriving DecidableEq

/-- The registers of a chip but for its requests. -/
structure Pic where
  init : Init
  offset : UInt8
  wiring : UInt8
  mode : UInt8
  mask : UInt8
  inService : Fin 8 → Bool

/-- The first line of a set; lower numbers have the higher priority. -/
def firstLine (lines : Fin 8 → Bool) : Option (Fin 8) := (List.finRange 8).find? lines

theorem firstLine_eq_some {lines : Fin 8 → Bool} {n : Fin 8} (h : firstLine lines = some n) :
    lines n = true := List.find?_some h

theorem firstLine_of_zero {lines : Fin 8 → Bool} (h : lines 0 = true) : firstLine lines = some 0 :=
  List.find?_cons_of_pos h

theorem firstLine_eq_none {lines : Fin 8 → Bool} : firstLine lines = none ↔ ∀ n, lines n = false := by
  rw [firstLine, List.find?_eq_none]
  exact ⟨fun h n => Bool.eq_false_of_not_eq_true (h n (List.mem_finRange n)),
    fun h n _ => by rw [h n]; exact Bool.false_ne_true⟩

namespace Pic

def endOfInterrupt (p : Pic) : Pic :=
  match firstLine p.inService with
  | none => p
  | some n => { p with inService := Function.update p.inService n false }

/-- The two command words that the kernel sends: the one that starts the initialisation, announcing
three more, and the non-specific end of interrupt. -/
def writeCommand (data : UInt8) (p : Pic) : Pic :=
  if data = icw1Init ||| icw1Icw4 then
    { p with init := .vectorOffset, mask := 0, inService := fun _ => false }
  else if data = picAckWord then p.endOfInterrupt
  else p

/-- The data port takes the words of the initialisation in order, and the mask afterwards. -/
def writeData (data : UInt8) (p : Pic) : Pic :=
  match p.init with
  | .vectorOffset => { p with offset := data &&& 0xF8, init := .wiring }
  | .wiring => { p with wiring := data, init := .mode }
  | .mode => { p with mode := data, init := .ready }
  | .ready => { p with mask := data }

def after (c : PortCall) (p : Pic) : Pic :=
  match c with
  | .outb port data =>
    if port = pic1Command then p.writeCommand data
    else if port = pic1Data then p.writeData data
    else p
  | _ => p

def masked (p : Pic) (n : Fin 8) : Bool := p.mask.toBitVec.getLsbD n

def serve (n : Fin 8) (p : Pic) : Pic := { p with inService := Function.update p.inService n true }

/-- The chip works in the mode that the kernel chooses, no interrupt is in service, and the second
chip is shut off. -/
structure Quiet (p : Pic) : Prop where
  ready : p.init = .ready
  mode : p.mode = icw4Mode8086
  idle : ∀ n, p.inService n = false
  cascade : p.masked 2 = true

theorem writeData_of_ready {p : Pic} (data : UInt8) (h : p.init = .ready) :
    p.writeData data = { p with mask := data } := by
  cases p
  subst h
  rfl

end Pic

def OnPics (c : PortCall) : Prop :=
  c.port = pic1Command ∨ c.port = pic1Data ∨ c.port = pic2Command ∨ c.port = pic2Data

theorem Pic.after_of_not_onPics (p : Pic) {c : PortCall} (h : ¬OnPics c) : p.after c = p := by
  cases c with
  | outb port data =>
    obtain ⟨h₁, h⟩ := not_or.mp h
    obtain ⟨h₂, -⟩ := not_or.mp h
    rw [after]
    exact (if_neg h₁).trans (if_neg h₂)
  | _ => rfl

/-- The first chip is sent no other command words than those of the kernel. -/
def KernelWord (c : PortCall) : Prop :=
  ∀ data, c = .outb pic1Command data → data = icw1Init ||| icw1Icw4 ∨ data = picAckWord

theorem kernelWord_of_not_onPics {c : PortCall} (h : ¬OnPics c) : KernelWord c := by
  rintro data rfl
  exact absurd (.inl rfl) h

/-- An interrupt controller: the registers of its first chip, the requests that this chip holds, and how
the devices, the accesses of ports and the processor change it. `accept` is the processor's
acknowledgement, with the vector that it gets. -/
structure Controller (π : Type) where
  registers : π → Pic
  requested : π → Fin 8 → Bool
  raise : Fin 16 → π → π → Prop
  withdraw : Fin 16 → π → π → Prop
  access : (c : PortCall) → π → c.Answer → π → Prop
  accept : π → UInt8 → π → Prop

namespace Controller
variable {π : Type}

def Keeps (I : Controller π) (lines : Fin 8 → Prop) (p p' : π) : Prop :=
  ∀ n, lines n → I.requested p n = true → I.requested p' n = true

/-- The processor takes the interrupt of an open line. -/
structure Takes (I : Controller π) (n : Fin 8) (p p' : π) : Prop where
  masked : (I.registers p).masked n = false
  registers : I.registers p' = (I.registers p).serve n
  keeps : I.Keeps (· ≠ n) p p'

/-- What the kernel relies on. -/
structure Spec (I : Controller π) : Prop where
  /-- Devices change the requests only; a line that a device holds stays requested. -/
  registers_raise : ∀ {line p p'}, I.raise line p p' → I.registers p' = I.registers p
  registers_withdraw : ∀ {line p p'}, I.withdraw line p p' → I.registers p' = I.registers p
  keeps_raise : ∀ {line p p'}, I.raise line p p' → I.Keeps (fun _ => True) p p'
  keeps_withdraw : ∀ {line p p'}, I.withdraw line p p' → I.Keeps (fun n => n.val ≠ line.val) p p'
  exists_raise : ∀ (n : Fin 8) p, ∃ p', I.raise (n.castLE (by decide)) p p' ∧ I.requested p' n = true
  registers_access : ∀ {c p a p'}, KernelWord c → I.access c p a p' →
    I.registers p' = (I.registers p).after c
  /-- The data port reads as the mask. -/
  mask_access : ∀ {p p'} {mask : UInt8}, I.access (.inb pic1Data) p mask p' →
    mask = (I.registers p).mask
  /-- Only the initialisation drops requests. -/
  keeps_access : ∀ {c p a p'}, KernelWord c → c ≠ .outb pic1Command (icw1Init ||| icw1Icw4) →
    I.access c p a p' → I.Keeps (fun _ => True) p p'
  /-- The vector is that of an open line, or that of line 7 while no line is requested any more. -/
  accept_cases : ∀ {p vector p'}, (I.registers p).Quiet → I.accept p vector p' →
    (∃ n : Fin 8, vector = (I.registers p).offset + UInt8.ofNat n ∧ I.Takes n p p') ∨
      vector = (I.registers p).offset + 7 ∧ I.registers p' = I.registers p ∧
        I.Keeps (fun _ => True) p p'
  /-- Of the requests of open lines, one is passed on. -/
  exists_accept : ∀ {p n}, (I.registers p).Quiet → (I.registers p).masked n = false →
    I.requested p n = true →
      ∃ (m : Fin 8) (p' : π), I.accept p ((I.registers p).offset + UInt8.ofNat m) p' ∧ I.Takes m p p'

end Controller

end Os2024.Interrupts
