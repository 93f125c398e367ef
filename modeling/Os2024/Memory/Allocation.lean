import Os2024.Library.Runs
import Os2024.Memory.Frames

/-! # What the frame allocator answers

Over every sequence of calls the count of free frames is one more than the
number of frames the search can still find, since frame 0 is counted and never
searched. The answer of the allocator and the promise of the check are read off
that.
-/

namespace Os2024.Memory
open Library.FlagTable Library.ExclusiveTargets Library.Runs

/-- The calls of paging.c that change its state. -/
inductive PagingCall where
  | allocate (pageDir : DirectoryRef) (virtualAddr : UInt32)
  | free (pageDir : DirectoryRef) (virtualAddr : UInt32) (flag : PageDirectoryEntryFlag)
  | createDirectory
  | freeDirectory (pageDir : DirectoryRef)
  | useDirectory (pageDir : DirectoryRef)

def PagingCall.run : PagingCall → Paging → Except Fault Paging
  | .allocate pageDir virtualAddr, s => (pagingAllocateUserPageFrame pageDir virtualAddr s).map Prod.snd
  | .free pageDir virtualAddr flag, s => (pagingFreeUserPageFrame pageDir virtualAddr flag s).map Prod.snd
  | .createDirectory, s => .ok (pagingCreateNewPageDirectory s).2
  | .freeDirectory pageDir, s => .ok (pagingFreePageDirectory pageDir s).2
  | .useDirectory pageDir, s => pagingUsePageDirectory pageDir s

namespace Paging

def Step (s : Paging) (call : PagingCall) (s' : Paging) : Prop := call.run s = .ok s'

/-- Calls may name any directory and any address, also pages that are mapped already. -/
def Reachable (s : Paging) : Prop := Run Step initialPaging s

/-- The invariant over all directories, whether they are in use or not. -/
structure Sound (s : Paging) : Prop extends CountOk s where
  exclusive : Exclusive (fun k => k.1 ≠ DirectoryRef.null) s.target s.Marked

theorem initialPaging_lowerAddress (r : DirectoryRef) (p : Fin 1024) :
    (initialPaging.directory r p).lowerAddress = 0 := by
  cases r with
  | null => rfl
  | kernel => exact freshDirectory_lowerAddress p
  | entry d => rfl

theorem initialPaging_sound : initialPaging.Sound where
  frame0 := rfl
  count := by decide
  exclusive := by
    have hnone : ∀ k, initialPaging.target k = none := by
      rintro ⟨r, p⟩
      exact target_eq_none.mpr (initialPaging_lowerAddress r p)
    constructor
    · intro k f hk hf
      simp [hnone] at hf
    · intro k k' f hk hk' hf
      simp [hnone] at hf

section Sound
variable {s s' : Paging} {r : DirectoryRef}

theorem Sound.mono (h : s.Sound) (hmap : s'.pageFrameMap = s.pageFrameMap)
    (hcount : s'.freePageFrameCount = s.freePageFrameCount)
    (hdir : ∀ r, s'.directory r = s.directory r ∨ ∀ p, (s'.directory r p).lowerAddress = 0) :
    s'.Sound where
  frame0 := by rw [hmap, h.frame0]
  count := by rw [hcount, hmap, h.count]
  exclusive := by
    have hmarked : s'.Marked = s.Marked := by
      funext f
      rw [Marked, hmap, Marked]
    rw [hmarked]
    apply h.exclusive.mono
    rintro ⟨r, p⟩ f hr hf
    rcases hdir r with heq | hzero
    · exact ⟨hr, by rw [← target_congr (congrFun heq p), hf]⟩
    · rw [target_eq_none.mpr (hzero p)] at hf
      cases hf

theorem Sound.created (h : s.Sound) (d : Fin 32) : (s.created d).Sound := by
  refine h.mono rfl rfl fun r => ?_
  by_cases hr : r = .entry d
  · subst r
    rw [directory_created_self]
    exact .inr freshDirectory_lowerAddress
  · exact .inl (directory_created_of_ne hr)

theorem Sound.dropped (h : s.Sound) (d : Fin 32) : (s.dropped d).Sound := by
  refine h.mono rfl rfl fun r => ?_
  by_cases hr : r = .entry d
  · subst r
    exact .inr fun p => by simp [Paging.dropped, directory, PageDirectoryEntry.zero]
  · exact .inl (directory_dropped_of_ne hr)

theorem Sound.allocated (h : s.Sound) (hr : r ≠ .null) (virtualAddr : UInt32) {i : Fin 32}
    (hi : i ≠ 0) (hfree : s.pageFrameMap i = false) : (s.allocated r virtualAddr i).Sound where
  toCountOk := h.toCountOk.allocated hi hfree
  exclusive := @exclusive_allocated s r virtualAddr i (· ≠ .null) h.exclusive hr hfree

theorem Sound.freed (h : s.Sound) (hr : r ≠ .null) (virtualAddr : UInt32)
    (flag : PageDirectoryEntryFlag) {i : Fin 32} (hmarked : s.pageFrameMap i = true)
    (hheld : s.target (r, upperBits virtualAddr) = some (i.castLE (by decide))) :
    (s.freed r virtualAddr flag i).Sound where
  toCountOk := h.toCountOk.freed hmarked
  exclusive := @exclusive_freed s r virtualAddr flag i (· ≠ .null) h.exclusive hr hr hheld

/-- Freeing gives back the frame the entry holds, or changes nothing. -/
theorem Sound.free (h : s.Sound) (hr : r ≠ .null) (virtualAddr : UInt32)
    (flag : PageDirectoryEntryFlag) :
    (s.target (r, upperBits virtualAddr) = none ∧
      pagingFreeUserPageFrame r virtualAddr flag s = .ok (false, s)) ∨
    ∃ i, i ≠ 0 ∧ s.pageFrameMap i = true ∧
      s.target (r, upperBits virtualAddr) = some (i.castLE (by decide)) ∧
      pagingFreeUserPageFrame r virtualAddr flag s = .ok (true, s.freed r virtualAddr flag i) :=
  @CountOk.free s r h.toCountOk (· ≠ .null) h.exclusive hr hr virtualAddr flag

end Sound

/-- A null pointer is only survived while no frame is left to write down. -/
theorem allocate_null {s s' : Paging} {virtualAddr : UInt32} {b : Bool}
    (h : pagingAllocateUserPageFrame .null virtualAddr s = .ok (b, s')) : s' = s := by
  simp only [pagingAllocateUserPageFrame, updatePageDirectoryEntry, if_true] at h
  split at h
  · simp_all
  · split at h <;> simp_all

theorem Sound.step {s s' : Paging} {call : PagingCall} (h : s.Sound) (hstep : Step s call s') :
    s'.Sound := by
  cases call with
  | allocate r virtualAddr =>
    obtain ⟨b, hrun⟩ := map_snd_eq_ok hstep
    by_cases hr : r = .null
    · subst r
      rw [allocate_null hrun]
      exact h
    · rcases h.toCountOk.allocate hr virtualAddr with ⟨-, heq⟩ | ⟨i, hi, hfree, heq⟩
      · simp_all
      · obtain ⟨-, rfl⟩ : true = b ∧ s.allocated r virtualAddr i = s' := by simp_all
        exact h.allocated hr virtualAddr hi hfree
  | free r virtualAddr flag =>
    obtain ⟨b, hrun⟩ := map_snd_eq_ok hstep
    by_cases hr : r = .null
    · simp [pagingFreeUserPageFrame, hr] at hrun
    · rcases h.free hr virtualAddr flag with ⟨-, heq⟩ | ⟨i, -, hmarked, hheld, heq⟩
      · simp_all
      · obtain ⟨-, rfl⟩ : true = b ∧ s.freed r virtualAddr flag i = s' := by simp_all
        exact h.freed hr virtualAddr flag hmarked hheld
  | createDirectory =>
    obtain rfl : (pagingCreateNewPageDirectory s).2 = s' := Except.ok.inj hstep
    by_cases hfull : ∃ d, s.pageDirectoryUsed d = false
    · obtain ⟨d, -, heq⟩ := createNewPageDirectory_eq hfull
      rw [heq]
      exact h.created d
    · have hnone : firstClear s.pageDirectoryUsed (List.finRange 32) = none :=
        firstClear_eq_none.mpr fun d _ => by simpa using not_exists.mp hfull d
      rw [pagingCreateNewPageDirectory, hnone]
      exact h
  | freeDirectory r =>
    obtain rfl : (pagingFreePageDirectory r s).2 = s' := Except.ok.inj hstep
    cases r with
    | null => exact h
    | kernel => exact h
    | entry d => exact h.dropped d
  | useDirectory r =>
    have huse : pagingUsePageDirectory r s = .ok s' := hstep
    rw [pagingUsePageDirectory] at huse
    split_ifs at huse with hr
    obtain rfl := Except.ok.inj huse
    exact h.mono rfl rfl fun r' => .inl (directory_withCr3 s r r')

/-- Every sequence of calls keeps the invariant. -/
theorem Reachable.sound {s : Paging} (h : s.Reachable) : s.Sound :=
  Run.invariant h initialPaging_sound fun _ _ _ hs hstep => hs.step hstep

/-- Between `s` and `s'` the address is mapped, for the user, to a frame that was unmarked. -/
structure Maps (s s' : Paging) (r : DirectoryRef) (virtualAddr : UInt32) (i : Fin 32) : Prop where
  free : s.pageFrameMap i = false
  marked : s'.pageFrameMap i = true
  present : (s'.directory r (upperBits virtualAddr)).flag.presentBit = true
  user : (s'.directory r (upperBits virtualAddr)).flag.userSv = true
  frame : (s'.directory r (upperBits virtualAddr)).lowerAddress.val = i.val

/-- The call returns `true` exactly when it maps a frame, and otherwise it changes nothing. -/
def TellsTruth (r : DirectoryRef) (virtualAddr : UInt32) (s : Paging) : Prop :=
  ∃ b s', pagingAllocateUserPageFrame r virtualAddr s = .ok (b, s') ∧
    (b = true ↔ ∃ i, s.Maps s' r virtualAddr i) ∧ (b = false → s' = s)

/-- Each of the calls, one after the other, maps a frame. -/
def MapAll : List (DirectoryRef × UInt32) → Paging → Prop
  | [], _ => True
  | (r, virtualAddr) :: requests, s =>
    ∃ b s', pagingAllocateUserPageFrame r virtualAddr s = .ok (b, s') ∧
      (∃ i, s.Maps s' r virtualAddr i) ∧ MapAll requests s'

/-- When the check passes for `k` frames, the next `k` calls all map one. -/
def KeepsPromise (k : ℕ) (s : Paging) : Prop :=
  ∀ requests : List (DirectoryRef × UInt32), requests.length = k →
    (∀ request ∈ requests, request.1 ≠ .null) →
    pagingAllocateCheck (pageFrameSize * UInt32.ofNat k) s = true → MapAll requests s

theorem maps_allocated {s : Paging} {r : DirectoryRef} (hr : r ≠ .null) (virtualAddr : UInt32)
    {i : Fin 32} (hfree : s.pageFrameMap i = false) :
    s.Maps (s.allocated r virtualAddr i) r virtualAddr i where
  free := hfree
  marked := by simp [pageFrameMap_allocated]
  present := by simp [directory_allocated_self hr, userFlag]
  user := by simp [directory_allocated_self hr, userFlag]
  frame := by simp [directory_allocated_self hr]

theorem not_maps_self (s : Paging) (r : DirectoryRef) (virtualAddr : UInt32) (i : Fin 32) :
    ¬s.Maps s r virtualAddr i := by
  intro h
  simpa [h.free] using h.marked

theorem allocatable_eq_zero {s : Paging} :
    s.allocatable = 0 ↔ ¬∃ i, i ≠ 0 ∧ s.pageFrameMap i = false := by
  simp [allocatable, clearCount_eq_zero]

section Answers
variable {s : Paging} {r : DirectoryRef}

theorem Sound.tellsTruth_iff (h : s.Sound) (hr : r ≠ .null) (virtualAddr : UInt32) :
    TellsTruth r virtualAddr s ↔ ∃ i, i ≠ 0 ∧ s.pageFrameMap i = false := by
  rcases h.toCountOk.allocate hr virtualAddr with ⟨hzero, heq⟩ | ⟨i, hi, hfree, heq⟩
  · -- The search has failed, and still the answer is `true`.
    have hnot := allocatable_eq_zero.mp hzero
    simp [TellsTruth, heq, not_maps_self, hnot]
  · have hmaps := maps_allocated hr virtualAddr hfree
    constructor
    · intro _
      exact ⟨i, hi, hfree⟩
    · intro _
      exact ⟨true, _, heq, by simpa using ⟨i, hmaps⟩, by simp⟩

theorem Sound.mapAll_iff (h : s.Sound) {requests : List (DirectoryRef × UInt32)}
    (hnull : ∀ request ∈ requests, request.1 ≠ .null) :
    MapAll requests s ↔ requests.length ≤ s.allocatable := by
  induction requests generalizing s with
  | nil => simp [MapAll]
  | cons request requests ih =>
    obtain ⟨r, virtualAddr⟩ := request
    have hr : r ≠ .null := hnull _ (List.mem_cons_self ..)
    have hrest := fun q hq => hnull q (List.mem_cons_of_mem _ hq)
    rcases h.toCountOk.allocate hr virtualAddr with ⟨hzero, heq⟩ | ⟨i, hi, hfree, heq⟩
    · simp [MapAll, heq, not_maps_self, hzero]
    · have hleft : (s.allocated r virtualAddr i).allocatable + 1 = s.allocatable :=
      allocatable_allocated hi hfree
      have ih' := ih (h.allocated hr virtualAddr hi hfree) hrest
      have hmaps := maps_allocated hr virtualAddr hfree
      have hsucc : requests.length ≤ (s.allocated r virtualAddr i).allocatable ↔
          requests.length + 1 ≤ s.allocatable := by omega
      rw [List.length_cons, ← hsucc, ← ih', MapAll]
      constructor
      · rintro ⟨b, s', hrun, -, hall⟩
        obtain ⟨-, rfl⟩ : true = b ∧ s.allocated r virtualAddr i = s' := by simp_all
        exact hall
      · intro hall
        exact ⟨true, _, heq, ⟨i, hmaps⟩, hall⟩

/-- The check compares the frames that are asked for with the count; the amount wraps at 4 GiB. -/
theorem pagingAllocateCheck_frames (k : ℕ) (s : Paging) :
    pagingAllocateCheck (pageFrameSize * UInt32.ofNat k) s = true ↔
      k % 1024 ≤ s.freePageFrameCount.toNat := by
  have hsize : pageFrameSize.toNat = 2 ^ 22 := rfl
  have hamount : (pageFrameSize * UInt32.ofNat k).toNat = k % 1024 * 2 ^ 22 := by
    rw [UInt32.toNat_mul, hsize, UInt32.toNat_ofNat']
    omega
  have hdiv : floatDiv (pageFrameSize * UInt32.ofNat k) pageFrameSize = (k % 1024 : ℕ) / (1 : ℕ) := by
    rw [floatDiv_multiple hamount (by omega) hsize (by norm_num), Nat.cast_one, div_one]
  have hceil : (ceil32 (floatDiv (pageFrameSize * UInt32.ofNat k) pageFrameSize)).toNat = k % 1024 := by
    rw [ceil32_toNat one_pos hdiv (by omega)]
    simp
  simp [pagingAllocateCheck, UInt32.le_iff_toNat_le, hceil]

theorem Sound.keepsPromise_iff (h : s.Sound) (k : ℕ) :
    KeepsPromise k s ↔ k ≤ s.allocatable ∨ s.allocatable + 1 < k % 1024 := by
  have hcheck := pagingAllocateCheck_frames k s
  rw [h.toCountOk.count_eq] at hcheck
  constructor
  · intro hpromise
    by_cases hpass : k % 1024 ≤ s.allocatable + 1
    · have hnull : ∀ request ∈ List.replicate k (DirectoryRef.kernel, (0 : UInt32)),
          request.1 ≠ .null := by
        intro request hmem
        rw [List.eq_of_mem_replicate hmem]
        simp
      have hall := hpromise _ List.length_replicate hnull (hcheck.mpr hpass)
      rw [h.mapAll_iff hnull, List.length_replicate] at hall
      exact .inl hall
    · exact .inr (by omega)
  · rintro hk requests hlength hnull hpass
    rw [h.mapAll_iff hnull, hlength]
    have := hcheck.mp hpass
    omega

end Answers

/-- The allocator tells the truth exactly while one of the frames 1 to 31 is unmarked. The check
keeps its promise for the frames that are left among these, and for amounts it refuses. -/
theorem frame_allocator_truth_iff {s : Paging} (h : s.Reachable) :
    (∀ r virtualAddr, r ≠ .null →
      (TellsTruth r virtualAddr s ↔ ∃ i, i ≠ 0 ∧ s.pageFrameMap i = false)) ∧
    ∀ k, KeepsPromise k s ↔ k ≤ s.allocatable ∨ s.allocatable + 1 < k % 1024 := by
  constructor
  · intro r virtualAddr hr
    exact h.sound.tellsTruth_iff hr virtualAddr
  · exact h.sound.keepsPromise_iff

/-- At boot the check promises 31 frames and keeps it. -/
theorem frame_allocator_truth_boot :
    TellsTruth .kernel 0 initialPaging ∧ KeepsPromise 31 initialPaging := by
  obtain ⟨htruth, hpromise⟩ := frame_allocator_truth_iff (Run.refl initialPaging)
  exact ⟨(htruth _ _ (by decide)).mpr ⟨1, by decide, rfl⟩, (hpromise 31).mpr (.inl (by decide))⟩

def allocateEach : List (DirectoryRef × UInt32) → Paging → Except Fault Paging
  | [], s => .ok s
  | (r, virtualAddr) :: requests, s =>
    match pagingAllocateUserPageFrame r virtualAddr s with
    | .error f => .error f
    | .ok (_, s) => allocateEach requests s

theorem MapAll.allocateEach {s : Paging} (h : s.Reachable)
    {requests : List (DirectoryRef × UInt32)} (hnull : ∀ request ∈ requests, request.1 ≠ .null)
    (hall : MapAll requests s) : ∃ s' : Paging, allocateEach requests s = .ok s' ∧ s'.Reachable ∧
      s'.allocatable + requests.length = s.allocatable := by
  induction requests generalizing s with
  | nil => exact ⟨s, rfl, h, rfl⟩
  | cons request requests ih =>
    obtain ⟨r, virtualAddr⟩ := request
    have hr : r ≠ .null := hnull _ (List.mem_cons_self ..)
    obtain ⟨b, s₁, hrun, ⟨j, hmaps⟩, hrest⟩ := hall
    have hstep : Step s (.allocate r virtualAddr) s₁ := by simp [Step, PagingCall.run, hrun, Except.map]
    obtain ⟨s', hrun', hs', hcount⟩ :=
      ih (Run.tail h hstep) (fun q hq => hnull q (List.mem_cons_of_mem _ hq)) hrest
    refine ⟨s', by simp [Paging.allocateEach, hrun, hrun'], hs', ?_⟩
    rcases h.sound.toCountOk.allocate hr virtualAddr with ⟨-, heq⟩ | ⟨i, hi, hfree, heq⟩
    · obtain ⟨-, rfl⟩ : true = b ∧ s = s₁ := by simp_all
      exact absurd hmaps (not_maps_self s r virtualAddr j)
    · obtain ⟨-, rfl⟩ : true = b ∧ s.allocated r virtualAddr i = s₁ := by simp_all
      have hleft : (s.allocated r virtualAddr i).allocatable + 1 = s.allocatable :=
        allocatable_allocated hi hfree
      rw [List.length_cons]
      omega

/-- After 31 allocations at one address the next call returns `true` and maps nothing; at boot the
check promises 32 frames. -/
theorem frame_allocator_lies :
    (∃ s, allocateEach (List.replicate 31 (.kernel, 0)) initialPaging = .ok s ∧ s.Reachable ∧
      pagingAllocateUserPageFrame .kernel 0 s = .ok (true, s) ∧ ¬TellsTruth .kernel 0 s) ∧
    ¬KeepsPromise 32 initialPaging := by
  have hnull : ∀ request ∈ List.replicate 31 (DirectoryRef.kernel, (0 : UInt32)),
      request.1 ≠ .null := by decide
  have hboot : initialPaging.allocatable = 31 := by decide
  have hall := (initialPaging_sound.mapAll_iff hnull).mpr (by decide)
  obtain ⟨s, hrun, hs, hcount⟩ := MapAll.allocateEach (Run.refl initialPaging) hnull hall
  have hzero : s.allocatable = 0 := by simpa [hboot] using hcount
  have hnone := allocatable_eq_zero.mp hzero
  constructor
  · refine ⟨s, hrun, hs, ?_, ?_⟩
    · rcases hs.sound.toCountOk.allocate (r := .kernel) (by decide) 0 with
        ⟨-, heq⟩ | ⟨i, hi, hfree, -⟩
      · exact heq
      · exact absurd ⟨i, hi, hfree⟩ hnone
    · rw [hs.sound.tellsTruth_iff (by decide)]
      exact hnone
  · rw [initialPaging_sound.keepsPromise_iff, hboot]
    decide

end Paging

end Os2024.Memory
