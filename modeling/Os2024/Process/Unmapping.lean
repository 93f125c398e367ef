import Os2024.Memory.Allocation
import Os2024.Process.Process

/-! # Giving a page back

Freeing writes the entry of the page with frame 0 and with whatever flags an
uninitialised local holds. The frame itself is let go by every directory; the
entry is unmapped when the byte on the stack happens to have its present bit clear.
-/

namespace Os2024.Process
open Memory Memory.Paging

/-- Between `s` and `s'` the page is unmapped: its entry is not present, no present entry of any
directory leads to its frame, the other entries are as before and it cannot be freed again. -/
structure Unmaps (s s' : Paging) (r : DirectoryRef) (virtualAddr : UInt32) : Prop where
  entry : (s'.directory r (upperBits virtualAddr)).flag.presentBit = false
  released : ∀ r' p, (s'.directory r' p).flag.presentBit = true →
    (s'.directory r' p).lowerAddress ≠ (s.directory r (upperBits virtualAddr)).lowerAddress
  others : ∀ r' p, (r', p) ≠ (r, upperBits virtualAddr) → s'.directory r' p = s.directory r' p
  once : ∀ flag, pagingFreeUserPageFrame r virtualAddr flag s' = .ok (false, s')

section Freed
variable {s : Paging} {r : DirectoryRef} {virtualAddr : UInt32} {flag : PageDirectoryEntryFlag}
  {i : Fin 32}

theorem freed_present_iff (hr : r ≠ .null) :
    ((s.freed r virtualAddr flag i).directory r (upperBits virtualAddr)).flag.presentBit = false ↔
      flag.presentBit = false := by
  rw [directory_freed_self hr, Function.update_self]

/-- No entry of any directory holds the frame any more. -/
theorem freed_released (hs : s.Sound) (hr : r ≠ .null)
    (hheld : s.target (r, upperBits virtualAddr) = some (i.castLE (by decide)))
    (r' : DirectoryRef) (p : Fin 1024) :
    ((s.freed r virtualAddr flag i).directory r' p).lowerAddress ≠
      (s.directory r (upperBits virtualAddr)).lowerAddress := by
  obtain ⟨hne, hlower⟩ := target_eq_some.mp hheld
  intro heq
  rw [hlower] at heq
  have hheld' := target_eq_some.mpr ⟨hne, heq⟩
  by_cases hkey : (r', p) = (r, upperBits virtualAddr)
  · rw [hkey, target_freed_self hr] at hheld'
    cases hheld'
  · have hr' : r' ≠ .null := by
      rintro rfl
      exact hne heq.symm
    rw [target_congr (directory_freed_of_ne hr hkey)] at hheld'
    exact hkey (hs.exclusive.injective hr' hr hheld' hheld)

theorem unmaps_freed_iff (hs : s.Sound) (hr : r ≠ .null) (hmarked : s.pageFrameMap i = true)
    (hheld : s.target (r, upperBits virtualAddr) = some (i.castLE (by decide))) :
    Unmaps s (s.freed r virtualAddr flag i) r virtualAddr ↔ flag.presentBit = false := by
  constructor
  · intro h
    exact (freed_present_iff hr).mp h.entry
  · intro hflag
    have hfreed := hs.freed hr virtualAddr flag hmarked hheld
    constructor
    · exact (freed_present_iff hr).mpr hflag
    · intro r' p _
      exact freed_released hs hr hheld r' p
    · intro r' p hne
      exact directory_freed_of_ne hr hne
    · intro flag'
      exact hfreed.toCountOk.free_of_none hr (target_freed_self hr)

theorem free_ne_null {b : Bool} {s' : Paging}
    (h : pagingFreeUserPageFrame r virtualAddr flag s = .ok (b, s')) : r ≠ .null := by
  rintro rfl
  simp [pagingFreeUserPageFrame] at h

theorem unmaps_iff (hs : s.Sound) {s' : Paging}
    (h : pagingFreeUserPageFrame r virtualAddr flag s = .ok (true, s')) :
    Unmaps s s' r virtualAddr ↔ flag.presentBit = false := by
  have hr := free_ne_null h
  rcases hs.free hr virtualAddr flag with ⟨-, heq⟩ | ⟨i, -, hmarked, hheld, heq⟩
  · simp [heq] at h
  · obtain rfl : s.freed r virtualAddr flag i = s' := by simpa [heq] using h
    exact unmaps_freed_iff hs hr hmarked hheld

end Freed

section Deallocate
variable {s s' : Kernel} {i : Fin 16} {virtualAddr : UInt32} {flag : PageDirectoryEntryFlag}

theorem processDeallocatePageFrame_frees
    (h : processDeallocatePageFrame i virtualAddr flag s = .ok s')
    (hrecord : ∃ k, (s.processList i).memory.Records virtualAddr k = true) :
    ∃ b, pagingFreeUserPageFrame (s.directoryOf i) virtualAddr flag s.paging = .ok (b, s'.paging) := by
  simp only [processDeallocatePageFrame, Kernel.directoryOf, paging_setPcb] at h ⊢
  split at h
  next hnone =>
    obtain ⟨k, hk⟩ := hrecord
    simp [List.find?_eq_none] at hnone
    simp [hnone k] at hk
  next k hk =>
    split at h
    next => cases h
    next b paging hfree =>
      obtain rfl := Except.ok.inj h
      exact ⟨b, hfree⟩

theorem free_answer (hs : s.paging.Sound) {b : Bool} {p' : Paging}
    (h : pagingFreeUserPageFrame (s.directoryOf i) virtualAddr flag s.paging = .ok (b, p'))
    (hheld : s.paging.target (s.directoryOf i, upperBits virtualAddr) ≠ none) : b = true := by
  rcases hs.free (free_ne_null h) virtualAddr flag with ⟨hnone, -⟩ | ⟨j, -, -, -, heq⟩
  · exact absurd hnone hheld
  · simp_all

end Deallocate

/-- A page that has been freed, whether directly or by `process_deallocate_page_frame`, is
unmapped exactly when the flags left on the stack have their present bit clear. -/
theorem free_unmaps_iff (flag : PageDirectoryEntryFlag) :
    (∀ s : Paging, s.Reachable → ∀ r virtualAddr s',
      pagingFreeUserPageFrame r virtualAddr flag s = .ok (true, s') →
      (Unmaps s s' r virtualAddr ↔ flag.presentBit = false)) ∧
    ∀ s : Kernel, s.paging.Reachable → ∀ i virtualAddr s',
      (∃ k, (s.processList i).memory.Records virtualAddr k = true) →
      s.paging.target (s.directoryOf i, upperBits virtualAddr) ≠ none →
      processDeallocatePageFrame i virtualAddr flag s = .ok s' →
      (Unmaps s.paging s'.paging (s.directoryOf i) virtualAddr ↔ flag.presentBit = false) := by
  constructor
  · intro s hs r virtualAddr s' h
    exact unmaps_iff hs.sound h
  · intro s hs i virtualAddr s' hrecord hheld h
    obtain ⟨b, hfree⟩ := processDeallocatePageFrame_frees h hrecord
    obtain rfl := free_answer hs.sound hfree hheld
    exact unmaps_iff hs.sound hfree

def allFlags : PageDirectoryEntryFlag := ⟨true, true, true, true, true, true, true, true⟩

def oneFrame : Paging := initialPaging.allocated .kernel 0 1

theorem oneFrame_reachable : oneFrame.Reachable :=
  Library.Runs.Run.tail (a := .allocate .kernel 0) (Library.Runs.Run.refl _) rfl

theorem oneFrame_free (flag : PageDirectoryEntryFlag) :
    pagingFreeUserPageFrame .kernel 0 flag oneFrame = .ok (true, oneFrame.freed .kernel 0 flag 1) :=
  free_of_some (by decide) rfl rfl

def onePage : Kernel where
  paging := oneFrame
  processListUsed := fun i => i = 0
  activeProcessCount := 1
  currentRunningPid := 0
  processList := Function.update (fun _ => .zero) 0
    { ProcessControlBlock.zero with
      context := { ProcessControlBlock.zero.context with pageDirectoryVirtualAddr := .kernel }
      memory := ProcessMemory.zero.record 0 0 }

theorem onePage_deallocate : ∃ s', processDeallocatePageFrame 0 0 .zero onePage = .ok s' := ⟨_, rfl⟩

theorem free_unmaps_clear_flags :
    Unmaps oneFrame (oneFrame.freed .kernel 0 .zero 1) .kernel 0 ∧
    ∃ s', processDeallocatePageFrame 0 0 .zero onePage = .ok s' ∧
      Unmaps oneFrame s'.paging .kernel 0 := by
  obtain ⟨s', hs'⟩ := onePage_deallocate
  refine ⟨?_, s', hs', ?_⟩
  · exact ((free_unmaps_iff .zero).1 oneFrame oneFrame_reachable .kernel 0 _ (oneFrame_free .zero)).mpr rfl
  · exact ((free_unmaps_iff .zero).2 onePage oneFrame_reachable 0 0 s' ⟨0, rfl⟩ (by decide) hs').mpr rfl

/-- The page stays present for user code, with the frame that holds the kernel. -/
theorem free_leaves_mapping :
    oneFrame.Reachable ∧
    pagingFreeUserPageFrame .kernel 0 allFlags oneFrame =
      .ok (true, oneFrame.freed .kernel 0 allFlags 1) ∧
    (oneFrame.freed .kernel 0 allFlags 1).directory .kernel (upperBits 0) = ⟨allFlags, 0⟩ ∧
    ¬Unmaps oneFrame (oneFrame.freed .kernel 0 allFlags 1) .kernel 0 := by
  refine ⟨oneFrame_reachable, oneFrame_free allFlags, rfl, ?_⟩
  intro h
  exact absurd h.entry (by decide)

end Os2024.Process
