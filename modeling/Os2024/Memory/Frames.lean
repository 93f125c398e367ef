import Os2024.Library.ExclusiveTargets
import Os2024.Memory.Paging

/-! # Frames are never shared

An entry of a page directory holds a frame when its lower address is not 0. The
directories in use hold marked frames only, and no frame twice. Each function of
the frame manager either changes nothing or hands one frame over, and the count
of free frames follows the map.
-/

namespace Os2024.Memory
open Library.FlagTable Library.ExclusiveTargets

def PageDirectoryEntry.UserMapping (e : PageDirectoryEntry) : Prop :=
  e.flag.presentBit = true ∧ e.flag.userSv = true

namespace Paging

/-- The kernel's directory and the used ones of the list. -/
def InUse (s : Paging) : DirectoryRef → Prop
  | .null => False
  | .kernel => True
  | .entry d => s.pageDirectoryUsed d = true

theorem InUse.ne_null {s : Paging} {r : DirectoryRef} (h : s.InUse r) : r ≠ .null := by
  rintro rfl
  exact h

def target (s : Paging) (k : DirectoryRef × Fin 1024) : Option (Fin 1024) :=
  if (s.directory k.1 k.2).lowerAddress = 0 then none
  else some (s.directory k.1 k.2).lowerAddress

def Marked (s : Paging) (f : Fin 1024) : Prop := ∃ i : Fin 32, i.val = f.val ∧ s.pageFrameMap i = true

/-- The invariant of the frame manager. -/
structure FramesOk (s : Paging) : Prop where
  exclusive : Exclusive (fun k => s.InUse k.1) s.target s.Marked
  frame0 : s.pageFrameMap 0 = false
  count : s.freePageFrameCount.toNat = clearCount Finset.univ s.pageFrameMap

/-- Frame 0 is never handed out, and the count of free frames follows the map. -/
structure CountOk (s : Paging) : Prop where
  frame0 : s.pageFrameMap 0 = false
  count : s.freePageFrameCount.toNat = clearCount Finset.univ s.pageFrameMap

theorem FramesOk.countOk {s : Paging} (h : s.FramesOk) : s.CountOk := ⟨h.frame0, h.count⟩

/-- The frames the allocator can still hand out: frame 0 is counted free but never searched. -/
def allocatable (s : Paging) : ℕ := clearCount (Finset.univ.erase 0) s.pageFrameMap

/-- Only directory `r` and the frames change. -/
structure OnlyDirectory (s s' : Paging) (r : DirectoryRef) : Prop where
  directories : ∀ r', r' ≠ r → s'.directory r' = s.directory r'
  used : s'.pageDirectoryUsed = s.pageDirectoryUsed
  cr3 : s'.cr3 = s.cr3

theorem OnlyDirectory.refl (s : Paging) (r : DirectoryRef) : OnlyDirectory s s r :=
  ⟨fun _ _ => rfl, rfl, rfl⟩

theorem OnlyDirectory.trans {s s' s'' : Paging} {r : DirectoryRef} (h : OnlyDirectory s s' r)
    (h' : OnlyDirectory s' s'' r) : OnlyDirectory s s'' r where
  directories r' hr' := (h'.directories r' hr').trans (h.directories r' hr')
  used := h'.used.trans h.used
  cr3 := h'.cr3.trans h.cr3

theorem OnlyDirectory.inUse_iff {s s' : Paging} {r : DirectoryRef} (h : OnlyDirectory s s' r)
    (r' : DirectoryRef) : s'.InUse r' ↔ s.InUse r' := by
  cases r' with
  | null => exact Iff.rfl
  | kernel => exact Iff.rfl
  | entry d => rw [InUse, h.used, InUse]

theorem target_eq_none {s : Paging} {r : DirectoryRef} {p : Fin 1024} :
    s.target (r, p) = none ↔ (s.directory r p).lowerAddress = 0 := by
  rw [target]
  split_ifs with h <;> simp [h]

theorem target_eq_some {s : Paging} {r : DirectoryRef} {p f : Fin 1024} :
    s.target (r, p) = some f ↔ f ≠ 0 ∧ (s.directory r p).lowerAddress = f := by
  rw [target]
  by_cases h : (s.directory r p).lowerAddress = 0
  · rw [if_pos h, h]
    constructor
    · intro hf
      cases hf
    · rintro ⟨hne, rfl⟩
      exact absurd rfl hne
  · rw [if_neg h, Option.some.injEq]
    constructor
    · rintro rfl
      exact ⟨h, rfl⟩
    · exact And.right

theorem target_congr {s s' : Paging} {r : DirectoryRef} {p : Fin 1024}
    (h : s'.directory r p = s.directory r p) : s'.target (r, p) = s.target (r, p) := by
  rw [target, target]
  simp only [h]

def allocated (s : Paging) (r : DirectoryRef) (virtualAddr : UInt32) (i : Fin 32) : Paging :=
  { ({ s with pageFrameMap := Function.update s.pageFrameMap i true }).setDirectory r
      (Function.update (s.directory r) (upperBits virtualAddr) ⟨userFlag, i.castLE (by decide)⟩) with
    freePageFrameCount := s.freePageFrameCount - 1 }

section Allocated
variable {s : Paging} {r : DirectoryRef} {virtualAddr : UInt32} {i : Fin 32}

theorem directory_allocated_self (hr : r ≠ .null) : (s.allocated r virtualAddr i).directory r =
    Function.update (s.directory r) (upperBits virtualAddr) ⟨userFlag, i.castLE (by decide)⟩ :=
  directory_setDirectory_self _ _ _ hr

theorem allocated_onlyDirectory : OnlyDirectory s (s.allocated r virtualAddr i) r where
  directories r' hr' := directory_setDirectory_of_ne { s with pageFrameMap := _ } r r' _ hr'
  used := pageDirectoryUsed_setDirectory { s with pageFrameMap := _ } r _
  cr3 := cr3_setDirectory { s with pageFrameMap := _ } r _

theorem pageFrameMap_allocated : (s.allocated r virtualAddr i).pageFrameMap =
    Function.update s.pageFrameMap i true := pageFrameMap_setDirectory { s with pageFrameMap := _ } r _

/-- Whichever directories count as being in use, the frame handed out is no one else's. -/
theorem exclusive_allocated {use : DirectoryRef → Prop}
    (h : Exclusive (fun k => use k.1) s.target s.Marked) (hr : r ≠ .null)
    (hfree : s.pageFrameMap i = false) :
    Exclusive (fun k => use k.1) (s.allocated r virtualAddr i).target
      (s.allocated r virtualAddr i).Marked := by
  refine h.assign (r, upperBits virtualAddr) (i.castLE (by decide)) ?_ ?_ ?_ ?_
  · rintro ⟨j, hj, hmarked⟩
    obtain rfl : j = i := Fin.ext hj
    rw [hfree] at hmarked
    cases hmarked
  · intro f hf
    rw [target_eq_some, directory_allocated_self hr, Function.update_self] at hf
    exact hf.2.symm
  · rintro ⟨r', p⟩ hne
    apply target_congr
    by_cases hr' : r' = r
    · subst r'
      rw [directory_allocated_self hr, Function.update_of_ne fun hp => hne (by rw [hp])]
    · rw [allocated_onlyDirectory.directories r' hr']
  · intro f
    rw [Marked, pageFrameMap_allocated]
    constructor
    · rintro ⟨j, hj, hmarked⟩
      by_cases hji : j = i
      · subst j
        exact .inr (Fin.ext hj.symm)
      · rw [Function.update_of_ne hji] at hmarked
        exact .inl ⟨j, hj, hmarked⟩
    · rintro (⟨j, hj, hmarked⟩ | rfl)
      · refine ⟨j, hj, ?_⟩
        by_cases hji : j = i
        · subst j
          exact Function.update_self ..
        · rw [Function.update_of_ne hji, hmarked]
      · exact ⟨i, rfl, Function.update_self ..⟩

theorem CountOk.allocated (h : s.CountOk) (hi : i ≠ 0) (hfree : s.pageFrameMap i = false) :
    (s.allocated r virtualAddr i).CountOk where
  frame0 := by rw [pageFrameMap_allocated, Function.update_of_ne hi.symm, h.frame0]
  count := by
    have htake := clearCount_take (Finset.mem_univ i) hfree
    have hlt := s.freePageFrameCount.toNat_lt
    have hcount := h.count
    have hone : (1 : UInt32).toNat = 1 := rfl
    change (s.freePageFrameCount - 1).toNat = _
    rw [pageFrameMap_allocated, UInt32.toNat_sub, hone]
    omega

theorem FramesOk.allocated (h : s.FramesOk) (hr : r ≠ .null) (hi : i ≠ 0)
    (hfree : s.pageFrameMap i = false) : (s.allocated r virtualAddr i).FramesOk where
  exclusive := by
    have hin : (s.allocated r virtualAddr i).InUse = s.InUse :=
      funext fun r' => propext (allocated_onlyDirectory.inUse_iff r')
    rw [hin]
    exact exclusive_allocated h.exclusive hr hfree
  frame0 := (h.countOk.allocated hi hfree).frame0
  count := (h.countOk.allocated hi hfree).count

theorem allocatable_allocated (hi : i ≠ 0) (hfree : s.pageFrameMap i = false) :
    (s.allocated r virtualAddr i).allocatable + 1 = s.allocatable := by
  rw [allocatable, allocatable, pageFrameMap_allocated]
  exact clearCount_take (Finset.mem_erase.mpr ⟨hi, Finset.mem_univ i⟩) hfree

end Allocated

/-- With frame 0 always clear the count never runs out before the search does. -/
theorem CountOk.count_eq {s : Paging} (h : s.CountOk) :
    s.freePageFrameCount.toNat = s.allocatable + 1 := by
  have htake := clearCount_take (Finset.mem_univ (0 : Fin 32)) h.frame0
  have hrest : clearCount Finset.univ (Function.update s.pageFrameMap 0 true) = s.allocatable := by
    rw [allocatable, clearCount, clearCount]
    refine congrArg Finset.card (Finset.ext fun j => ?_)
    by_cases hj : j = 0
    · subst j
      simp
    · simp [hj]
  rw [h.count, ← htake, hrest]

theorem mem_drop_one {i : Fin 32} : i ∈ (List.finRange 32).drop 1 ↔ i ∈ Finset.univ.erase 0 := by
  revert i
  decide

/-- The allocator gives out a frame exactly when one is left, and otherwise changes nothing. -/
theorem CountOk.allocate {s : Paging} (h : s.CountOk) {r : DirectoryRef} (hr : r ≠ .null)
    (virtualAddr : UInt32) :
    (s.allocatable = 0 ∧ pagingAllocateUserPageFrame r virtualAddr s = .ok (true, s)) ∨
    ∃ i, i ≠ 0 ∧ s.pageFrameMap i = false ∧
      pagingAllocateUserPageFrame r virtualAddr s = .ok (true, s.allocated r virtualAddr i) := by
  have hcount : s.freePageFrameCount ≠ 0 := by
    intro h0
    have heq := h.count_eq
    rw [h0] at heq
    exact absurd heq (Nat.succ_ne_zero _).symm
  rw [pagingAllocateUserPageFrame, if_neg hcount]
  cases hfirst : firstClear s.pageFrameMap ((List.finRange 32).drop 1) with
  | none => exact .inl ⟨(firstClear_isNone fun j => mem_drop_one).mp hfirst, rfl⟩
  | some i =>
    refine .inr ⟨i, ?_, firstClear_clear hfirst, ?_⟩
    · exact (Finset.mem_erase.mp (mem_drop_one.mp (firstClear_mem hfirst))).1
    · have hframe : upperBits (pageFrameSize * UInt32.ofNat i) = i.castLE (by decide) :=
        Fin.ext (upperBits_frame i)
      dsimp only
      rw [updatePageDirectoryEntry, if_neg hr, hframe, Paging.allocated]
      cases r <;> rfl

def freed (s : Paging) (r : DirectoryRef) (virtualAddr : UInt32) (flag : PageDirectoryEntryFlag)
    (i : Fin 32) : Paging :=
  { ({ s with pageFrameMap := Function.update s.pageFrameMap i false }).setDirectory r
      (Function.update (s.directory r) (upperBits virtualAddr) ⟨flag, 0⟩) with
    freePageFrameCount := s.freePageFrameCount + 1 }

section Freed
variable {s : Paging} {r : DirectoryRef} {virtualAddr : UInt32} {flag : PageDirectoryEntryFlag}
  {i : Fin 32}

theorem freed_onlyDirectory : OnlyDirectory s (s.freed r virtualAddr flag i) r where
  directories r' hr' := directory_setDirectory_of_ne { s with pageFrameMap := _ } r r' _ hr'
  used := pageDirectoryUsed_setDirectory { s with pageFrameMap := _ } r _
  cr3 := cr3_setDirectory { s with pageFrameMap := _ } r _

theorem pageFrameMap_freed : (s.freed r virtualAddr flag i).pageFrameMap =
    Function.update s.pageFrameMap i false := pageFrameMap_setDirectory { s with pageFrameMap := _ } r _

theorem allocatable_freed (hi : i ≠ 0) (hmarked : s.pageFrameMap i = true) :
    (s.freed r virtualAddr flag i).allocatable = s.allocatable + 1 := by
  rw [allocatable, allocatable, pageFrameMap_freed]
  exact clearCount_return (Finset.mem_erase.mpr ⟨hi, Finset.mem_univ i⟩) hmarked

theorem directory_freed_self (hr : r ≠ .null) : (s.freed r virtualAddr flag i).directory r =
    Function.update (s.directory r) (upperBits virtualAddr) ⟨flag, 0⟩ :=
  directory_setDirectory_self _ _ _ hr

theorem target_freed_self (hr : r ≠ .null) :
    (s.freed r virtualAddr flag i).target (r, upperBits virtualAddr) = none := by
  rw [target_eq_none, directory_freed_self hr, Function.update_self]

theorem directory_freed_of_ne {r' : DirectoryRef} {p : Fin 1024} (hr : r ≠ .null)
    (hne : (r', p) ≠ (r, upperBits virtualAddr)) :
    (s.freed r virtualAddr flag i).directory r' p = s.directory r' p := by
  by_cases hr' : r' = r
  · subst r'
    rw [directory_freed_self hr, Function.update_of_ne fun hp => hne (by rw [hp])]
  · rw [freed_onlyDirectory.directories r' hr']

theorem exclusive_freed {use : DirectoryRef → Prop}
    (h : Exclusive (fun k => use k.1) s.target s.Marked) (hr : r ≠ .null) (huse : use r)
    (hheld : s.target (r, upperBits virtualAddr) = some (i.castLE (by decide))) :
    Exclusive (fun k => use k.1) (s.freed r virtualAddr flag i).target
      (s.freed r virtualAddr flag i).Marked := by
  refine h.release (r, upperBits virtualAddr) huse hheld (target_freed_self hr) ?_ ?_
  · rintro ⟨r', p⟩ hne
    exact target_congr (directory_freed_of_ne hr hne)
  · rintro f hf ⟨j, hj, hjm⟩
    refine ⟨j, hj, ?_⟩
    rw [pageFrameMap_freed, Function.update_of_ne, hjm]
    rintro rfl
    exact hf (Fin.ext hj.symm)

theorem CountOk.freed (h : s.CountOk) (hmarked : s.pageFrameMap i = true) :
    (s.freed r virtualAddr flag i).CountOk where
  frame0 := by
    rw [pageFrameMap_freed]
    by_cases hi : i = 0
    · subst i
      exact Function.update_self ..
    · rw [Function.update_of_ne (Ne.symm hi), h.frame0]
  count := by
    have hreturn := clearCount_return (Finset.mem_univ i) hmarked
    have hle : clearCount Finset.univ s.pageFrameMap ≤ 32 := clearCount_le
    have hcount := h.count
    have hone : (1 : UInt32).toNat = 1 := rfl
    change (s.freePageFrameCount + 1).toNat = _
    rw [pageFrameMap_freed, hreturn, UInt32.toNat_add, hone]
    omega

theorem FramesOk.freed (h : s.FramesOk) (hr : s.InUse r) (hmarked : s.pageFrameMap i = true)
    (hheld : s.target (r, upperBits virtualAddr) = some (i.castLE (by decide))) :
    (s.freed r virtualAddr flag i).FramesOk where
  exclusive := by
    have hin : (s.freed r virtualAddr flag i).InUse = s.InUse :=
      funext fun r' => propext (freed_onlyDirectory.inUse_iff r')
    rw [hin]
    exact exclusive_freed h.exclusive hr.ne_null hr hheld
  frame0 := (h.countOk.freed hmarked).frame0
  count := (h.countOk.freed hmarked).count

end Freed

/-- The outcome of freeing: nothing when the page holds no frame, and its frame otherwise. -/
def Returns (r : DirectoryRef) (virtualAddr : UInt32) (flag : PageDirectoryEntryFlag)
    (s s' : Paging) : Prop :=
  (s.target (r, upperBits virtualAddr) = none ∧ s' = s) ∨
    ∃ i, i ≠ 0 ∧ s.pageFrameMap i = true ∧
      s.target (r, upperBits virtualAddr) = some (i.castLE (by decide)) ∧
      s' = s.freed r virtualAddr flag i

section Free
variable {s : Paging} {r : DirectoryRef} {virtualAddr : UInt32} {flag : PageDirectoryEntryFlag}

theorem CountOk.free_of_none (h : s.CountOk) (hr : r ≠ .null)
    (hnone : s.target (r, upperBits virtualAddr) = none) :
    pagingFreeUserPageFrame r virtualAddr flag s = .ok (false, s) := by
  have hunmarked : s.pageFrameMap ⟨0, by decide⟩ ≠ true := by
    rw [show (⟨0, by decide⟩ : Fin 32) = 0 from rfl, h.frame0]
    decide
  rw [pagingFreeUserPageFrame, if_neg hr]
  simp only [pageNum_eq]
  simp only [target_eq_none.mp hnone, Fin.val_zero]
  rw [dif_pos (by decide), if_neg hunmarked]

/-- The frame of a page is given back when it is marked. -/
theorem free_of_some {i : Fin 32} (hr : r ≠ .null) (hmarked : s.pageFrameMap i = true)
    (hheld : s.target (r, upperBits virtualAddr) = some (i.castLE (by decide))) :
    pagingFreeUserPageFrame r virtualAddr flag s = .ok (true, s.freed r virtualAddr flag i) := by
  have hval : (s.directory r (upperBits virtualAddr)).lowerAddress.val = i.val :=
    congrArg Fin.val (target_eq_some.mp hheld).2
  have hlt : (s.directory r (upperBits virtualAddr)).lowerAddress.val < 32 := hval ▸ i.isLt
  have hindex : (⟨_, hlt⟩ : Fin 32) = i := Fin.ext hval
  have hzero : upperBits 0 = 0 := rfl
  rw [pagingFreeUserPageFrame, if_neg hr]
  simp only [pageNum_eq]
  rw [dif_pos hlt, hindex, if_pos hmarked, updatePageDirectoryEntry, if_neg hr, Paging.freed, hzero]
  cases r <;> rfl

/-- Freeing returns: it gives back the frame the page holds, or changes nothing. The answer tells
which of the two. -/
theorem CountOk.free (h : s.CountOk) {use : DirectoryRef → Prop}
    (hexclusive : Exclusive (fun k => use k.1) s.target s.Marked) (hr : r ≠ .null) (huse : use r)
    (virtualAddr : UInt32) (flag : PageDirectoryEntryFlag) :
    (s.target (r, upperBits virtualAddr) = none ∧
      pagingFreeUserPageFrame r virtualAddr flag s = .ok (false, s)) ∨
    ∃ i, i ≠ 0 ∧ s.pageFrameMap i = true ∧
      s.target (r, upperBits virtualAddr) = some (i.castLE (by decide)) ∧
      pagingFreeUserPageFrame r virtualAddr flag s = .ok (true, s.freed r virtualAddr flag i) := by
  cases htarget : s.target (r, upperBits virtualAddr) with
  | none => exact .inl ⟨rfl, h.free_of_none hr htarget⟩
  | some f =>
    obtain ⟨i, hi, hmarked⟩ := hexclusive.marked huse htarget
    obtain rfl : i.castLE (by decide) = f := Fin.ext hi
    refine .inr ⟨i, ?_, hmarked, rfl, free_of_some hr hmarked htarget⟩
    rintro rfl
    rw [h.frame0] at hmarked
    cases hmarked

theorem FramesOk.free (h : s.FramesOk) (hr : s.InUse r) (virtualAddr : UInt32)
    (flag : PageDirectoryEntryFlag) :
    ∃ b s', pagingFreeUserPageFrame r virtualAddr flag s = .ok (b, s') ∧
      Returns r virtualAddr flag s s' := by
  rcases h.countOk.free h.exclusive hr.ne_null hr virtualAddr flag with
    ⟨hnone, heq⟩ | ⟨i, hi, hmarked, hheld, heq⟩
  · exact ⟨false, s, heq, .inl ⟨hnone, rfl⟩⟩
  · exact ⟨true, _, heq, .inr ⟨i, hi, hmarked, hheld, rfl⟩⟩

end Free

namespace Returns
variable {s s' : Paging} {r : DirectoryRef} {virtualAddr : UInt32} {flag : PageDirectoryEntryFlag}

theorem framesOk (h : Returns r virtualAddr flag s s') (hs : s.FramesOk) (hr : s.InUse r) :
    s'.FramesOk := by
  rcases h with ⟨-, rfl⟩ | ⟨i, -, hmarked, hheld, rfl⟩
  · exact hs
  · exact hs.freed hr hmarked hheld

theorem onlyDirectory (h : Returns r virtualAddr flag s s') : OnlyDirectory s s' r := by
  rcases h with ⟨-, rfl⟩ | ⟨i, -, -, -, rfl⟩
  · exact .refl _ r
  · exact freed_onlyDirectory

theorem allocatable_le (h : Returns r virtualAddr flag s s') : s.allocatable ≤ s'.allocatable := by
  rcases h with ⟨-, rfl⟩ | ⟨i, hi, hmarked, -, rfl⟩
  · exact le_rfl
  · exact (allocatable_freed hi hmarked).symm ▸ Nat.le_succ _

theorem target_eq (h : Returns r virtualAddr flag s s') (hr : r ≠ .null) (p : Fin 1024) :
    s'.target (r, p) = if p = upperBits virtualAddr then none else s.target (r, p) := by
  rcases h with ⟨hnone, rfl⟩ | ⟨i, -, -, -, rfl⟩
  · split_ifs with hp
    · rw [hp, hnone]
    · rfl
  · split_ifs with hp
    · rw [hp, target_freed_self hr]
    · exact target_congr (directory_freed_of_ne hr fun heq => hp (congrArg Prod.snd heq))

/-- Only the frame of the page is given back. -/
theorem pageFrameMap_iff (h : Returns r virtualAddr flag s s') (j : Fin 32) :
    s'.pageFrameMap j = true ↔ s.pageFrameMap j = true ∧
      s.target (r, upperBits virtualAddr) ≠ some (j.castLE (by decide)) := by
  rcases h with ⟨hnone, rfl⟩ | ⟨i, -, -, hheld, rfl⟩
  · simp [hnone]
  · rw [pageFrameMap_freed, hheld]
    by_cases hji : j = i
    · simp [hji]
    · simp [hji, Ne.symm hji]

end Returns

theorem FramesOk.mono {s s' : Paging} (h : s.FramesOk) (hmap : s'.pageFrameMap = s.pageFrameMap)
    (hcount : s'.freePageFrameCount = s.freePageFrameCount)
    (hdir : ∀ r, s'.InUse r → s.InUse r ∧ s'.directory r = s.directory r ∨
      ∀ p, (s'.directory r p).lowerAddress = 0) : s'.FramesOk where
  exclusive := by
    have hmarked : s'.Marked = s.Marked := by
      funext f
      rw [Marked, hmap, Marked]
    rw [hmarked]
    apply h.exclusive.mono
    rintro ⟨r, p⟩ f hr hf
    rcases hdir r hr with ⟨hold, heq⟩ | hzero
    · exact ⟨hold, by rw [← target_congr (congrFun heq p), hf]⟩
    · rw [target_eq_none.mpr (hzero p)] at hf
      cases hf
  frame0 := by rw [hmap, h.frame0]
  count := by rw [hcount, hmap, h.count]

section Cr3
variable (s : Paging) (r r' : DirectoryRef)

@[simp] theorem directory_withCr3 : { s with cr3 := r }.directory r' = s.directory r' := by
  cases r' <;> rfl

@[simp] theorem inUse_withCr3 : { s with cr3 := r }.InUse r' ↔ s.InUse r' := by
  cases r' <;> rfl

theorem FramesOk.withCr3 {s : Paging} (h : s.FramesOk) : { s with cr3 := r }.FramesOk :=
  h.mono rfl rfl fun r' hr' =>
    .inl ⟨(inUse_withCr3 s r r').mp hr', directory_withCr3 s r r'⟩

end Cr3

/-- The directory of a new process maps the kernel and nothing else. -/
def freshDirectory : PageDirectory := Function.update (fun _ => .zero) 0x300 kernelEntry

theorem freshDirectory_lowerAddress (p : Fin 1024) : (freshDirectory p).lowerAddress = 0 := by
  by_cases hp : p = 0x300
  · subst p
    rw [freshDirectory, Function.update_self]
    rfl
  · rw [freshDirectory, Function.update_of_ne hp]
    rfl

theorem freshDirectory_not_userMapping (p : Fin 1024) : ¬(freshDirectory p).UserMapping := by
  rintro ⟨hpresent, huser⟩
  by_cases hp : p = 0x300
  · subst p
    rw [freshDirectory, Function.update_self] at huser
    exact absurd huser (by decide)
  · rw [freshDirectory, Function.update_of_ne hp] at hpresent
    exact absurd hpresent (by decide)

def created (s : Paging) (d : Fin 32) : Paging :=
  { s with
    pageDirectoryUsed := Function.update s.pageDirectoryUsed d true
    pageDirectoryList := Function.update s.pageDirectoryList d freshDirectory }

theorem createNewPageDirectory_eq {s : Paging} (h : ∃ d, s.pageDirectoryUsed d = false) :
    ∃ d, s.pageDirectoryUsed d = false ∧
      pagingCreateNewPageDirectory s = (.entry d, s.created d) := by
  obtain ⟨d₀, hd₀⟩ := h
  rw [pagingCreateNewPageDirectory]
  cases hfirst : firstClear s.pageDirectoryUsed (List.finRange 32) with
  | none =>
    rw [firstClear_eq_none.mp hfirst d₀ (List.mem_finRange d₀)] at hd₀
    cases hd₀
  | some d => exact ⟨d, firstClear_clear hfirst, rfl⟩

section Created
variable {s : Paging} {d : Fin 32} {r : DirectoryRef}

theorem directory_created_self : (s.created d).directory (.entry d) = freshDirectory :=
  Function.update_self ..

theorem directory_created_of_ne (h : r ≠ .entry d) : (s.created d).directory r = s.directory r := by
  cases r with
  | null => rfl
  | kernel => rfl
  | entry d' => exact Function.update_of_ne (fun hd => h (by rw [hd])) _ _

theorem inUse_created : (s.created d).InUse r ↔ s.InUse r ∨ r = .entry d := by
  cases r with
  | null => simp [InUse]
  | kernel => simp [InUse]
  | entry d' =>
    by_cases hd : d' = d
    · subst d'
      simp [InUse, Paging.created]
    · simp [InUse, Paging.created, hd]

theorem FramesOk.created (h : s.FramesOk) : (s.created d).FramesOk := by
  refine h.mono rfl rfl fun r hr => ?_
  by_cases hrd : r = .entry d
  · subst r
    refine .inr fun p => ?_
    rw [directory_created_self]
    exact freshDirectory_lowerAddress p
  · exact .inl ⟨(inUse_created.mp hr).resolve_right hrd, directory_created_of_ne hrd⟩

end Created

def dropped (s : Paging) (d : Fin 32) : Paging :=
  { s with
    pageDirectoryUsed := Function.update s.pageDirectoryUsed d false
    pageDirectoryList := Function.update s.pageDirectoryList d (fun _ => .zero) }

theorem freePageDirectory_entry (s : Paging) (d : Fin 32) :
    pagingFreePageDirectory (.entry d) s = (true, s.dropped d) := rfl

section Dropped
variable {s : Paging} {d : Fin 32} {r : DirectoryRef}

theorem directory_dropped_of_ne (h : r ≠ .entry d) : (s.dropped d).directory r = s.directory r := by
  cases r with
  | null => rfl
  | kernel => rfl
  | entry d' => exact Function.update_of_ne (fun hd => h (by rw [hd])) _ _

theorem inUse_dropped : (s.dropped d).InUse r ↔ s.InUse r ∧ r ≠ .entry d := by
  cases r with
  | null => simp [InUse]
  | kernel => simp [InUse]
  | entry d' =>
    by_cases hd : d' = d
    · subst d'
      simp [InUse, Paging.dropped]
    · simp [InUse, Paging.dropped, hd]

theorem FramesOk.dropped (h : s.FramesOk) : (s.dropped d).FramesOk := by
  refine h.mono rfl rfl fun r hr => .inl ?_
  obtain ⟨hold, hne⟩ := inUse_dropped.mp hr
  exact ⟨hold, directory_dropped_of_ne hne⟩

end Dropped

end Paging

end Os2024.Memory
