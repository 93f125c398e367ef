import Os2024.FileSystem.Layout
import Os2024.Library.PrivateMemories
import Os2024.Machine

/-! # The interrupt gates of idt.c

A gate holds the address of its stub in pieces. The processor puts the pieces
together again, and checks the privilege that the gate asks for when a program calls
it.
-/

namespace Os2024.Interrupts
open Library.PrivateMemories

structure IdtGate where
  offsetLow : UInt16
  segment : UInt16
  rBit1 : BitVec 3
  rBit2 : BitVec 3
  gate32 : Bool
  rBit3 : Bool
  dpl : BitVec 2
  validBit : Bool
  offsetHigh : UInt16

def IdtGate.zero : IdtGate := ⟨0, 0, 0, 0, false, false, 0, false, 0⟩

def gdtKernelCodeSegmentSelector : UInt16 := 0x8

abbrev Idt := UInt8 → IdtGate

def interruptGate (handlerAddress : UInt32) (gdtSegSelector : UInt16) (privilege : UInt8) :
    IdtGate where
  offsetLow := (handlerAddress &&& 0xFFFF).toUInt16
  offsetHigh := (handlerAddress >>> 16 &&& 0xFFFF).toUInt16
  segment := gdtSegSelector
  dpl := privilege.toBitVec.truncate 2
  rBit1 := 0b000
  rBit2 := 0b110
  rBit3 := false
  gate32 := true
  validBit := true

def setInterruptGate (intVector : UInt8) (handlerAddress : UInt32) (gdtSegSelector : UInt16)
    (privilege : UInt8) (idt : Idt) : Idt :=
  Function.update idt intVector (interruptGate handlerAddress gdtSegSelector privilege)

/-- The table after `initialize_idt`, with the addresses of the stubs of intsetup.s. -/
def initializeIdt (isrStubTable : Fin 64 → UInt32) : Idt :=
  setInterruptGate 0x30 (isrStubTable 0x30) gdtKernelCodeSegmentSelector 3
    ((List.finRange 64).foldl
      (fun idt (i : Fin 64) =>
        setInterruptGate (UInt8.ofNat i) (isrStubTable i) gdtKernelCodeSegmentSelector 0 idt)
      fun _ => .zero)

namespace IdtGate

def offset (g : IdtGate) : UInt32 := g.offsetHigh.toUInt32 <<< 16 ||| g.offsetLow.toUInt32

/-- A 32-bit interrupt gate, which the processor enters with interrupts disabled. -/
def IsInterruptGate (g : IdtGate) : Prop :=
  g.validBit = true ∧ g.rBit2 = 0b110 ∧ g.gate32 = true ∧ g.rBit3 = false

instance : DecidablePred IsInterruptGate :=
  fun g => inferInstanceAs (Decidable (g.validBit = true ∧ g.rBit2 = 0b110 ∧ _ ∧ _))

end IdtGate

theorem toNat_lowPiece (a : UInt32) : (a &&& 0xFFFF).toUInt16.toNat = a.toNat % 2 ^ 16 := by
  have hmask : (0xFFFF : UInt32).toNat = 2 ^ 16 - 1 := rfl
  rw [UInt32.toNat_toUInt16, UInt32.toNat_and, hmask, Nat.and_two_pow_sub_one_eq_mod, Nat.mod_mod]

theorem toNat_joined (high low shift : UInt32) (k : ℕ) (hshift : shift.toNat = k) (hk : k < 32)
    (hhigh : high.toNat * 2 ^ k < 2 ^ 32) (hlow : low.toNat < 2 ^ k) :
    (high <<< shift ||| low).toNat = high.toNat * 2 ^ k + low.toNat := by
  rw [UInt32.toNat_or, UInt32.toNat_shiftLeft, hshift, Nat.mod_eq_of_lt hk, Nat.shiftLeft_eq,
    Nat.mod_eq_of_lt hhigh, ← Nat.shiftLeft_eq, Nat.shiftLeft_add_eq_or_of_lt hlow]

theorem offset_interruptGate (handlerAddress : UInt32) (gdtSegSelector : UInt16) (privilege : UInt8) :
    (interruptGate handlerAddress gdtSegSelector privilege).offset = handlerAddress := by
  rw [interruptGate, IdtGate.offset]
  dsimp only
  have haddr := handlerAddress.toNat_lt
  have hlow := toNat_lowPiece handlerAddress
  have hhigh := toNat_lowPiece (handlerAddress >>> 16)
  have hshift : (16 : UInt32).toNat % 32 = 16 := rfl
  rw [UInt32.toNat_shiftRight, hshift, Nat.shiftRight_eq_div_pow] at hhigh
  apply UInt32.toNat_inj.mp
  rw [toNat_joined _ _ 16 16 rfl (by decide), UInt16.toNat_toUInt32, UInt16.toNat_toUInt32, hlow, hhigh]
  · omega
  · rw [UInt16.toNat_toUInt32, hhigh]
    omega
  · rw [UInt16.toNat_toUInt32, hlow]
    omega

section Table
variable (isrStubTable : Fin 64 → UInt32)

theorem ofNat_vector_injective : Function.Injective fun i : Fin 64 => UInt8.ofNat i := by
  intro i j hij
  have hval := congrArg UInt8.toNat hij
  rw [UInt8.toNat_ofNat', UInt8.toNat_ofNat'] at hval
  omega

/-- Each of the 64 gates leads to its stub; only the one of the system calls may be used by
programs. -/
theorem initializeIdt_stub (i : Fin 64) :
    initializeIdt isrStubTable (UInt8.ofNat i) =
      interruptGate (isrStubTable i) gdtKernelCodeSegmentSelector (if i = 0x30 then 3 else 0) := by
  rw [initializeIdt, setInterruptGate]
  by_cases hi : i = 0x30
  · have hvector : UInt8.ofNat i = 0x30 := by
      rw [hi]
      rfl
    rw [hvector, Function.update_self, hi, if_pos rfl]
  · have hne : UInt8.ofNat i ≠ 0x30 := fun h => hi (ofNat_vector_injective h)
    rw [Function.update_of_ne hne, if_neg hi]
    exact foldl_update_self _ _ ofNat_vector_injective (List.nodup_finRange 64)
      (List.mem_finRange i) _

theorem initializeIdt_absent {n : UInt8} (hn : 64 ≤ n.toNat) :
    initializeIdt isrStubTable n = .zero := by
  have hne : ∀ i : Fin 64, n ≠ UInt8.ofNat i := by
    rintro i rfl
    rw [UInt8.toNat_ofNat'] at hn
    omega
  have hcall : n ≠ 0x30 := hne 0x30
  rw [initializeIdt, setInterruptGate, Function.update_of_ne hcall]
  exact foldl_update_of_ne _ _ (fun i _ => hne i) _

/-- The vector of the interrupt that `int n` in a program leads to: it has to be present and open
to programs, and is a general protection fault otherwise. -/
def softwareVector (idt : Idt) (n : UInt8) : UInt8 :=
  if (idt n).validBit = true ∧ (idt n).dpl = 3 then n else 13

theorem softwareVector_initializeIdt (n : UInt8) :
    softwareVector (initializeIdt isrStubTable) n = if n = 0x30 then 0x30 else 13 := by
  rw [softwareVector]
  by_cases hn : n.toNat < 64
  · obtain ⟨i, rfl⟩ : ∃ i : Fin 64, n = UInt8.ofNat i := ⟨⟨n.toNat, hn⟩, UInt8.ofNat_toNat.symm⟩
    have hiff : UInt8.ofNat i = 0x30 ↔ i = 0x30 :=
      ofNat_vector_injective.eq_iff (b := (0x30 : Fin 64))
    rw [initializeIdt_stub]
    by_cases hi : i = 0x30
    · rw [if_pos (hiff.mpr hi), if_pos hi]
      exact (if_pos ⟨rfl, rfl⟩).trans (hiff.mpr hi)
    · rw [if_neg (mt hiff.mp hi), if_neg hi]
      refine if_neg fun h => ?_
      have hdpl : (0 : UInt8).toBitVec.truncate 2 = 3 := h.2
      exact absurd hdpl (by decide)
  · rw [initializeIdt_absent isrStubTable (not_lt.mp hn), if_neg (by decide), if_neg]
    rintro rfl
    exact hn (by decide)

/-- The stub at the address that a gate leads to. -/
def stubOf (g : IdtGate) : Option (Fin 64) :=
  (List.finRange 64).find? fun i => isrStubTable i = g.offset

/-- The interrupt number that the stub of a vector pushes is the vector. -/
theorem stubOf_initializeIdt (hstubs : Function.Injective isrStubTable) (i : Fin 64) :
    stubOf isrStubTable (initializeIdt isrStubTable (UInt8.ofNat i)) = some i := by
  rw [stubOf, initializeIdt_stub, offset_interruptGate]
  cases hfind : (List.finRange 64).find? fun j => isrStubTable j = isrStubTable i with
  | none => exact absurd (List.find?_eq_none.mp hfind i (List.mem_finRange i)) (by simp)
  | some j =>
    have hj := List.find?_some hfind
    rw [hstubs (of_decide_eq_true hj)]

end Table

end Os2024.Interrupts
