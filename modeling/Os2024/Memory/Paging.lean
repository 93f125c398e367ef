import Os2024.Library.FlagTable
import Os2024.Machine

/-! # The page frame and page directory manager of paging.c

Thirty-two frames of 4 MiB and thirty-two page directories are handed out first
fit. Page directories are named by references: the kernel's own one, one of the
list, or the null pointer. The state holds the register CR3 as well.
-/

namespace Os2024.Memory
open Library.FlagTable

-- The literals of the frame and page numbers rest on these two.
instance neZeroFrames : NeZero 32 := ⟨by decide⟩
instance neZeroPages : NeZero 1024 := ⟨by decide⟩

/-- The flag byte of a page directory entry, one field for each bit. -/
structure PageDirectoryEntryFlag where
  presentBit : Bool
  writeBit : Bool
  userSv : Bool
  writeThrough : Bool
  disableCache : Bool
  accessed : Bool
  dirty : Bool
  usePagesize4Mb : Bool
  deriving DecidableEq

/-- The two fields the kernel writes; `lowerAddress` has 10 bits. -/
structure PageDirectoryEntry where
  flag : PageDirectoryEntryFlag
  lowerAddress : Fin 1024
  deriving DecidableEq

def PageDirectoryEntryFlag.zero : PageDirectoryEntryFlag :=
  ⟨false, false, false, false, false, false, false, false⟩

def PageDirectoryEntry.zero : PageDirectoryEntry := ⟨.zero, 0⟩

abbrev PageDirectory := Fin 1024 → PageDirectoryEntry

/-- A `struct PageDirectory *`. -/
inductive DirectoryRef where
  | null
  | kernel
  | entry (i : Fin 32)
  deriving DecidableEq

def pageFrameSize : UInt32 := 0x400000

/-- `(addr >> 22) & 0x3FF`: the index of a virtual page, or the lower address of a frame. -/
def upperBits (addr : UInt32) : Fin 1024 :=
  ⟨(addr >>> 22 &&& 0x3FF).toNat, by
    rw [UInt32.toNat_and]
    exact Nat.lt_of_le_of_lt Nat.and_le_right (by decide)⟩

/-- The state of paging.c and the register CR3. -/
structure Paging where
  pageFrameMap : Fin 32 → Bool
  freePageFrameCount : UInt32
  kernelPageDirectory : PageDirectory
  pageDirectoryList : Fin 32 → PageDirectory
  pageDirectoryUsed : Fin 32 → Bool
  cr3 : DirectoryRef

namespace Paging

def directory (s : Paging) : DirectoryRef → PageDirectory
  | .null => fun _ => .zero
  | .kernel => s.kernelPageDirectory
  | .entry d => s.pageDirectoryList d

def setDirectory (s : Paging) (pageDir : DirectoryRef) (dir : PageDirectory) : Paging :=
  match pageDir with
  | .null => s
  | .kernel => { s with kernelPageDirectory := dir }
  | .entry d => { s with pageDirectoryList := Function.update s.pageDirectoryList d dir }

end Paging

def updatePageDirectoryEntry (pageDir : DirectoryRef) (physicalAddr virtualAddr : UInt32)
    (flag : PageDirectoryEntryFlag) (s : Paging) : Except Fault Paging :=
  if pageDir = .null then .error .nullDereference else
  let pageIndex := upperBits virtualAddr
  .ok (s.setDirectory pageDir
    (Function.update (s.directory pageDir) pageIndex ⟨flag, upperBits physicalAddr⟩))

/-- `amount` is meant in bytes. -/
def pagingAllocateCheck (amount : UInt32) (s : Paging) : Bool :=
  let requiredPages := ceil32 (floatDiv amount pageFrameSize)
  s.freePageFrameCount ≥ requiredPages

def userFlag : PageDirectoryEntryFlag :=
  { PageDirectoryEntryFlag.zero with
    presentBit := true
    writeBit := true
    userSv := true
    usePagesize4Mb := true }

/-- The search starts at frame 1, and it answers `true` also when it finds none. -/
def pagingAllocateUserPageFrame (pageDir : DirectoryRef) (virtualAddr : UInt32) (s : Paging) :
    Except Fault (Bool × Paging) :=
  if s.freePageFrameCount = 0 then .ok (false, s) else
  match firstClear s.pageFrameMap ((List.finRange 32).drop 1) with
  | none => .ok (true, s)
  | some i =>
    let s := { s with pageFrameMap := Function.update s.pageFrameMap i true }
    match updatePageDirectoryEntry pageDir (pageFrameSize * UInt32.ofNat i) virtualAddr userFlag s with
    | .error f => .error f
    | .ok s => .ok (true, { s with freePageFrameCount := s.freePageFrameCount - 1 })

/-- `page_frame_map[page_num]` is read outside the map when the entry holds no frame number. The
flags written back are those of an uninitialised local, here the argument `flag`. -/
def pagingFreeUserPageFrame (pageDir : DirectoryRef) (virtualAddr : UInt32)
    (flag : PageDirectoryEntryFlag) (s : Paging) : Except Fault (Bool × Paging) :=
  if pageDir = .null then .error .nullDereference else
  let pageIndex := upperBits virtualAddr
  let physicalAddr := UInt32.ofNat (s.directory pageDir pageIndex).lowerAddress <<< 22
  let pageNum := (physicalAddr / pageFrameSize).toNat
  if h : pageNum < 32 then
    if s.pageFrameMap ⟨pageNum, h⟩ = true then
      let s := { s with pageFrameMap := Function.update s.pageFrameMap ⟨pageNum, h⟩ false }
      match updatePageDirectoryEntry pageDir 0 virtualAddr flag s with
      | .error f => .error f
      | .ok s => .ok (true, { s with freePageFrameCount := s.freePageFrameCount + 1 })
    else .ok (false, s)
  else .error .outOfBounds

/-- The higher-half mapping of the kernel, for the supervisor only. -/
def kernelEntry : PageDirectoryEntry :=
  ⟨{ PageDirectoryEntryFlag.zero with
    presentBit := true
    writeBit := true
    usePagesize4Mb := true }, 0⟩

def pagingCreateNewPageDirectory (s : Paging) : DirectoryRef × Paging :=
  match firstClear s.pageDirectoryUsed (List.finRange 32) with
  | none => (.null, s)
  | some i =>
    let s := { s with pageDirectoryUsed := Function.update s.pageDirectoryUsed i true }
    (.entry i, s.setDirectory (.entry i) (Function.update (fun _ => .zero) 0x300 kernelEntry))

/-- Only a directory of the list can be freed. -/
def pagingFreePageDirectory (pageDir : DirectoryRef) (s : Paging) : Bool × Paging :=
  match pageDir with
  | .entry i =>
    let s := { s with pageDirectoryUsed := Function.update s.pageDirectoryUsed i false }
    (true, s.setDirectory (.entry i) (fun _ => .zero))
  | _ => (false, s)

/-- CR3 holds a physical address, the reference its virtual one. -/
def pagingGetCurrentPageDirectoryAddr (s : Paging) : DirectoryRef := s.cr3

/-- No kernel mapping is found at physical address 0, so loading the null pointer ends the run. -/
def pagingUsePageDirectory (pageDir : DirectoryRef) (s : Paging) : Except Fault Paging :=
  if pageDir = .null then .error .nullDereference else .ok { s with cr3 := pageDir }

/-- The static initialisers, after the loader has removed the identity mapping of page 0. -/
def initialPaging : Paging where
  pageFrameMap := fun _ => false
  freePageFrameCount := 32
  kernelPageDirectory := Function.update (fun _ => .zero) 0x300 kernelEntry
  pageDirectoryList := fun _ _ => .zero
  pageDirectoryUsed := fun _ => false
  cr3 := .kernel

section Small
variable (s : Paging) (r r' : DirectoryRef) (dir : PageDirectory)

@[simp] theorem directory_setDirectory_self (h : r ≠ .null) :
    (s.setDirectory r dir).directory r = dir := by
  cases r with
  | null => exact absurd rfl h
  | kernel => rfl
  | entry d => exact Function.update_self ..

theorem directory_setDirectory_of_ne (h : r' ≠ r) :
    (s.setDirectory r dir).directory r' = s.directory r' := by
  cases r <;> cases r' <;> try rfl
  · exact absurd rfl h
  · exact Function.update_of_ne (fun hd => h (congrArg DirectoryRef.entry hd)) _ _

@[simp] theorem pageFrameMap_setDirectory :
    (s.setDirectory r dir).pageFrameMap = s.pageFrameMap := by cases r <;> rfl

@[simp] theorem pageDirectoryUsed_setDirectory :
    (s.setDirectory r dir).pageDirectoryUsed = s.pageDirectoryUsed := by cases r <;> rfl

@[simp] theorem cr3_setDirectory : (s.setDirectory r dir).cr3 = s.cr3 := by cases r <;> rfl

end Small

theorem upperBits_val (addr : UInt32) : (upperBits addr).val = addr.toNat / 2 ^ 22 := by
  have hlt := addr.toNat_lt
  have hmask : (0x3FF : UInt32).toNat = 2 ^ 10 - 1 := rfl
  have hshift : (22 : UInt32).toNat % 32 = 22 := rfl
  rw [upperBits]
  dsimp only
  rw [UInt32.toNat_and, UInt32.toNat_shiftRight, hmask, hshift, Nat.shiftRight_eq_div_pow,
    Nat.and_two_pow_sub_one_eq_mod]
  omega

/-- A frame number survives the round trip through its physical address. -/
theorem upperBits_frame (i : Fin 32) :
    (upperBits (pageFrameSize * UInt32.ofNat i)).val = i.val := by
  have hi := i.isLt
  have hsize : pageFrameSize.toNat = 2 ^ 22 := rfl
  rw [upperBits_val, UInt32.toNat_mul, hsize, UInt32.toNat_ofNat']
  omega

theorem pageNum_eq (lower : Fin 1024) :
    (UInt32.ofNat lower <<< 22 / pageFrameSize).toNat = lower.val := by
  have hlower := lower.isLt
  have hsize : pageFrameSize.toNat = 2 ^ 22 := rfl
  have hshift : (22 : UInt32).toNat % 32 = 22 := rfl
  rw [UInt32.toNat_div, UInt32.toNat_shiftLeft, hsize, hshift, UInt32.toNat_ofNat',
    Nat.shiftLeft_eq]
  omega

end Os2024.Memory
