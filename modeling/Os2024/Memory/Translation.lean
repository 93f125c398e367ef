import Os2024.Library.PrivateMemories
import Os2024.Memory.Frames

/-! # Address translation

What the processor makes of a virtual address: the loader has switched on pages of
4 MiB, so an entry of the page directory leads to a frame at once. An access that
the flags of the entry do not allow has no physical address. Translations are not
cached.
-/

namespace Os2024.Memory
open Library.ExclusiveTargets Paging

structure Access where
  user : Bool
  write : Bool

/-- The checks of the processor. The write bit binds user code only, since the loader leaves the
write protection of the supervisor off; an entry without the bit for large pages would lead to
a page table, of which the kernel makes none. -/
def PageDirectoryEntryFlag.Allows (flag : PageDirectoryEntryFlag) (access : Access) : Prop :=
  flag.presentBit = true ∧ flag.usePagesize4Mb = true ∧
    (access.user = true → flag.userSv = true ∧ (access.write = true → flag.writeBit = true))

instance (flag : PageDirectoryEntryFlag) (access : Access) : Decidable (flag.Allows access) :=
  inferInstanceAs (Decidable (_ ∧ _ ∧ (_ → _)))

def physicalAddr (frame : Fin 1024) (addr : UInt32) : UInt32 :=
  pageFrameSize * UInt32.ofNat frame + addr % pageFrameSize

def translate (dir : PageDirectory) (access : Access) (addr : UInt32) : Option UInt32 :=
  let entry := dir (upperBits addr)
  if entry.flag.Allows access then some (physicalAddr entry.lowerAddress addr) else none

theorem physicalAddr_toNat (frame : Fin 1024) (addr : UInt32) :
    (physicalAddr frame addr).toNat = 2 ^ 22 * frame.val + addr.toNat % 2 ^ 22 := by
  have hframe := frame.isLt
  have hsize : pageFrameSize.toNat = 2 ^ 22 := rfl
  rw [physicalAddr, UInt32.toNat_add, UInt32.toNat_mul, UInt32.toNat_mod, hsize,
    UInt32.toNat_ofNat']
  omega

theorem upperBits_physicalAddr (frame : Fin 1024) (addr : UInt32) :
    upperBits (physicalAddr frame addr) = frame := by
  refine Fin.ext ?_
  rw [upperBits_val, physicalAddr_toNat]
  omega

/-- Frame, page and physical address determine the virtual address. -/
theorem physicalAddr_injective {frame frame' : Fin 1024} {addr addr' : UInt32}
    (h : physicalAddr frame addr = physicalAddr frame' addr')
    (hpage : upperBits addr = upperBits addr') : addr = addr' := by
  have hval := congrArg UInt32.toNat h
  have hframe : frame = frame' := by
    rw [← upperBits_physicalAddr frame addr, h, upperBits_physicalAddr]
  have hpages := congrArg Fin.val hpage
  rw [upperBits_val, upperBits_val] at hpages
  rw [physicalAddr_toNat, physicalAddr_toNat, hframe] at hval
  apply UInt32.toNat_inj.mp
  omega

section Translate
variable {dir : PageDirectory} {access : Access} {addr pa : UInt32}

theorem translate_eq_some : translate dir access addr = some pa ↔
    (dir (upperBits addr)).flag.Allows access ∧
      physicalAddr (dir (upperBits addr)).lowerAddress addr = pa := by
  rw [translate]
  split_ifs with h
  · rw [Option.some.injEq, and_iff_right h]
  · exact iff_of_false (by rintro ⟨⟩) fun hno => h hno.1

theorem frame_of_translate (h : translate dir access addr = some pa) :
    upperBits pa = (dir (upperBits addr)).lowerAddress := by
  rw [← (translate_eq_some.mp h).2, upperBits_physicalAddr]

/-- User code follows user mappings only. -/
theorem userMapping_of_translate (h : translate dir access addr = some pa)
    (huser : access.user = true) : (dir (upperBits addr)).UserMapping := by
  obtain ⟨⟨hpresent, -, hflags⟩, -⟩ := translate_eq_some.mp h
  exact ⟨hpresent, (hflags huser).1⟩

theorem translate_given {frame : Fin 1024} (h : dir (upperBits addr) = ⟨userFlag, frame⟩)
    (access : Access) : translate dir access addr = some (physicalAddr frame addr) := by
  refine translate_eq_some.mpr ⟨?_, by rw [h]⟩
  rw [h]
  exact ⟨rfl, rfl, fun _ => ⟨rfl, fun _ => rfl⟩⟩

end Translate

theorem translate_null (s : Paging) (access : Access) (addr : UInt32) :
    translate (s.directory .null) access addr = none := by
  cases h : translate (s.directory .null) access addr with
  | none => rfl
  | some pa => exact absurd (translate_eq_some.mp h).1.1 Bool.false_ne_true

end Os2024.Memory
