import Os2024.Library.CallTrees
import Os2024.Machine

/-! # The ports of portio.c

Code that talks to a device is a program whose calls are port accesses. The answers
come from the device.
-/

namespace Os2024
open Library.CallTrees

inductive PortCall where
  | inb (port : UInt16)
  | outb (port : UInt16) (data : UInt8)
  | inw (port : UInt16)
  | outw (port : UInt16) (data : UInt16)

def PortCall.Answer : PortCall → Type
  | inb _ => UInt8
  | outb _ _ => Unit
  | inw _ => UInt16
  | outw _ _ => Unit

def PortCall.port : PortCall → UInt16
  | inb port => port
  | outb port _ => port
  | inw port => port
  | outw port _ => port

abbrev PortProg (α : Type) := Program PortCall.Answer Fault α

/-- `in` of portio.c. -/
def inb (port : UInt16) : PortProg UInt8 := Program.perform (PortCall.inb port)

/-- `out`. -/
def outb (port : UInt16) (data : UInt8) : PortProg Unit := Program.perform (PortCall.outb port data)

/-- `in16`. -/
def inw (port : UInt16) : PortProg UInt16 := Program.perform (PortCall.inw port)

/-- `out16`. -/
def outw (port : UInt16) (data : UInt16) : PortProg Unit := Program.perform (PortCall.outw port data)

end Os2024
