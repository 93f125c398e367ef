import Os2024.Library.CallTrees
import Os2024.FileSystem.Driver

/-! # System calls of a user program

A user program is a tree of system calls. Interrupts are off while the kernel
serves a call, so every call is one atomic step on the file system and on what has
been printed.
-/

namespace Os2024.Shell
open Library.PackedLayout Library.CallTrees FileSystem

/-- `struct SyscallPutsArgs`, with the `count` characters to print. -/
structure PutsArgs where
  buf : List UInt8
  fgColor : UInt32
  bgColor : UInt32

/-- A call that reads or writes a buffer of the program carries the program's memory. -/
inductive Syscall where
  | read (request : DriverRequest) (mem : Memory)
  | readDirectory (request : DriverRequest)
  | write (request : DriverRequest) (mem : Memory)
  | delete (request : DriverRequest)
  | readCluster (clusterNumber : UInt32)
  | writeCluster (data : Cluster) (clusterNumber : UInt32)
  | puts (args : PutsArgs)

/-- What the program finds in its buffers and in the return code. -/
def Syscall.Answer : Syscall → Type
  | read _ _ => Int8 × Memory
  | readDirectory _ => Int8 × Option Cluster
  | write _ _ => Int8
  | delete _ => Int8
  | readCluster _ => Cluster
  | writeCluster _ _ => Unit
  | puts _ => Unit

structure System where
  storage : Storage
  output : List PutsArgs

/-- `syscall` of interrupt.c. -/
def Syscall.exec : (c : Syscall) → System → Except Fault (c.Answer × System)
  | read request mem, s =>
    match FileSystem.read request s.storage with
    | .error f => .error f
    | .ok (retcode, stores) => .ok ((retcode, applyStores mem stores), s)
  | readDirectory request, s => .ok (FileSystem.readDirectory request s.storage, s)
  | write request mem, s =>
    match FileSystem.write mem request s.storage with
    | .error f => .error f
    | .ok (retcode, storage) => .ok (retcode, { s with storage := storage })
  | delete request, s =>
    match FileSystem.delete request s.storage with
    | .error f => .error f
    | .ok (retcode, storage) => .ok (retcode, { s with storage := storage })
  | readCluster clusterNumber, s => .ok (readClusters clusterNumber s.storage.disk, s)
  | writeCluster data clusterNumber, s =>
    .ok ((), { s with storage := s.storage.writeClusters clusterNumber data })
  | puts args, s => .ok ((), { s with output := s.output ++ [args] })

abbrev Prog (α : Type) := Program Syscall.Answer Fault α

/-- The run of a program that nothing interleaves with. -/
def run {α : Type} (p : Prog α) (s : System) : Except Fault (α × System) := p.run Syscall.exec s

section Run
variable {α β : Type} {p : Prog α} {f : α → Prog β} {a : α} {e : Fault} {s s' : System}

theorem run_bind_ok (h : run p s = .ok (a, s')) : run (p >>= f) s = run (f a) s' :=
  Program.run_bind_ok h

theorem run_bind_error (h : run p s = .error e) : run (p >>= f) s = .error e :=
  Program.run_bind_error h

theorem of_run_bind {r : β × System} (h : run (p >>= f) s = .ok r) :
    ∃ a s', run p s = .ok (a, s') ∧ run (f a) s' = .ok r := Program.of_run_bind h

@[simp] theorem run_pure : run (pure a) s = .ok (a, s) := rfl

@[simp] theorem run_ofExcept (x : Except Fault α) :
    run (.ofExcept x) s = x.map fun a => (a, s) := Program.run_ofExcept x

end Run

def readCall (request : DriverRequest) (mem : Memory) : Prog (Int8 × Memory) :=
  Program.perform (Syscall.read request mem)

def readDirectoryCall (request : DriverRequest) : Prog (Int8 × Option Cluster) :=
  Program.perform (Syscall.readDirectory request)

def writeCall (request : DriverRequest) (mem : Memory) : Prog Int8 :=
  Program.perform (Syscall.write request mem)

def deleteCall (request : DriverRequest) : Prog Int8 := Program.perform (Syscall.delete request)

def readTable (clusterNumber : UInt32) : Prog DirectoryTable := do
  let cluster ← Program.perform (Syscall.readCluster clusterNumber)
  return tableLayout.symm cluster

def writeTable (table : DirectoryTable) (clusterNumber : UInt32) : Prog Unit :=
  Program.perform (Syscall.writeCluster (tableLayout table) clusterNumber)

def biosLightGreen : UInt32 := 0xA
def biosLightRed : UInt32 := 0xC
def biosYellow : UInt32 := 0xE

def ascii (text : String) : List UInt8 := text.toList.map Char.toUInt8

/-- `SYSCALL_PUTS` on black. -/
def puts (buf : List UInt8) (fgColor : UInt32) : Prog Unit :=
  Program.perform (Syscall.puts ⟨buf, fgColor, 0x0⟩)

/-- One `SYSCALL_PUTS` after the other, all in one colour. -/
def putsEach (fgColor : UInt32) : List (List UInt8) → Prog Unit
  | [] => pure ()
  | buf :: rest => do
    puts buf fgColor
    putsEach fgColor rest

end Os2024.Shell
