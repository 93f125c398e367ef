import Os2024.Memory.Frames
import Os2024.Process.Scheduler

/-! # What a creation does

A creation is refused with the state unchanged, or it claims a slot, a directory
and up to two frames. The claims are kept when the executable cannot be read.
Each page given to a directory is one frame, or none when memory is exhausted.
-/

namespace Os2024.Process
open Library.FlagTable Memory Memory.Paging FileSystem

/-- The outcome of the allocator: nothing when no frame is left, and one frame otherwise. -/
def Gives (r : DirectoryRef) (virtualAddr : UInt32) (s s' : Paging) : Prop :=
  (s.allocatable = 0 ∧ s' = s) ∨
    ∃ i, i ≠ 0 ∧ s.pageFrameMap i = false ∧ s' = s.allocated r virtualAddr i

namespace Gives
variable {r : DirectoryRef} {virtualAddr : UInt32} {s s' : Paging}

theorem framesOk (h : Gives r virtualAddr s s') (hr : r ≠ .null) (hs : s.FramesOk) : s'.FramesOk := by
  rcases h with ⟨-, rfl⟩ | ⟨i, hi, hfree, rfl⟩
  · exact hs
  · exact hs.allocated hr hi hfree

theorem onlyDirectory (h : Gives r virtualAddr s s') : OnlyDirectory s s' r := by
  rcases h with ⟨-, rfl⟩ | ⟨i, -, -, rfl⟩
  · exact .refl _ r
  · exact allocated_onlyDirectory

theorem entry_of_ne (h : Gives r virtualAddr s s') (hr : r ≠ .null) {p : Fin 1024}
    (hp : p ≠ upperBits virtualAddr) : s'.directory r p = s.directory r p := by
  rcases h with ⟨-, rfl⟩ | ⟨i, -, -, rfl⟩
  · rfl
  · rw [directory_allocated_self hr, Function.update_of_ne hp]

theorem entry_self (h : Gives r virtualAddr s s') (hr : r ≠ .null) :
    (s.allocatable = 0 ∧ s'.directory r (upperBits virtualAddr) =
      s.directory r (upperBits virtualAddr)) ∨
    (0 < s.allocatable ∧ ∃ f, f ≠ 0 ∧ s'.directory r (upperBits virtualAddr) = ⟨userFlag, f⟩) := by
  rcases h with ⟨h0, rfl⟩ | ⟨i, hi, hfree, rfl⟩
  · exact .inl ⟨h0, rfl⟩
  · refine .inr ⟨clearCount_pos (Finset.mem_erase.mpr ⟨hi, Finset.mem_univ i⟩) hfree,
      i.castLE (by decide), ?_, ?_⟩
    · intro h0
      exact hi (Fin.ext (congrArg (fun f : Fin 1024 => f.val) h0))
    · rw [directory_allocated_self hr, Function.update_self]

theorem allocatable_eq (h : Gives r virtualAddr s s') : s'.allocatable = s.allocatable - 1 := by
  rcases h with ⟨h0, rfl⟩ | ⟨i, hi, hfree, rfl⟩
  · rw [h0]
  · have heq := @allocatable_allocated s r virtualAddr i hi hfree
    omega

theorem backed (h : Gives r virtualAddr s s') (hr : r ≠ .null)
    (hs : ∀ p, (s.directory r p).UserMapping → (s.directory r p).lowerAddress ≠ 0) (p : Fin 1024)
    (hp : (s'.directory r p).UserMapping) : (s'.directory r p).lowerAddress ≠ 0 := by
  by_cases hpage : p = upperBits virtualAddr
  · subst p
    rcases h.entry_self hr with ⟨-, heq⟩ | ⟨-, f, hf, heq⟩
    · rw [heq] at hp ⊢
      exact hs _ hp
    · rw [heq]
      exact hf
  · rw [h.entry_of_ne hr hpage] at hp ⊢
    exact hs p hp

end Gives

/-- The state after slot `i` has recorded a page in entry `k`, with `paging` as the state of the
frame manager. -/
def recordPage (s : Kernel) (i : Fin 16) (k : Fin 8) (virtualAddr : UInt32) (paging : Paging) :
    Kernel :=
  { s.setPcb i { s.processList i with memory := (s.processList i).memory.record k virtualAddr } with
    paging := paging }

section RecordPage
variable (s : Kernel) (i j : Fin 16) (k : Fin 8) (virtualAddr : UInt32) (paging : Paging)

@[simp] theorem processList_recordPage_self : (recordPage s i k virtualAddr paging).processList i =
    { s.processList i with memory := (s.processList i).memory.record k virtualAddr } :=
  Function.update_self ..

theorem processList_recordPage_of_ne (h : j ≠ i) :
    (recordPage s i k virtualAddr paging).processList j = s.processList j :=
  Function.update_of_ne h _ _

@[simp] theorem directoryOf_recordPage_self :
    (recordPage s i k virtualAddr paging).directoryOf i = s.directoryOf i := by
  rw [Kernel.directoryOf, processList_recordPage_self, Kernel.directoryOf]

end RecordPage

theorem processAllocatePageFrame_eq {s : Kernel} (h : s.paging.FramesOk) {i : Fin 16} {k : Fin 8}
    (hdir : s.directoryOf i ≠ .null)
    (hcount : (s.processList i).memory.pageFrameUsedCount < processPageFrameCountMax)
    (hk : firstClear (s.processList i).memory.dataVirtualAddrUsed (List.finRange 8) = some k)
    (virtualAddr : UInt32) : ∃ paging, Gives (s.directoryOf i) virtualAddr s.paging paging ∧
      processAllocatePageFrame i virtualAddr s = .ok (recordPage s i k virtualAddr paging) := by
  have hfew : ¬(s.processList i).memory.pageFrameUsedCount ≥ processPageFrameCountMax :=
    UInt32.not_le.mpr hcount
  rw [processAllocatePageFrame]
  dsimp only
  rw [if_neg hfew, hk]
  dsimp only
  rcases h.countOk.allocate hdir virtualAddr with ⟨h0, heq⟩ | ⟨f, hf, hfree, heq⟩
  · rw [Kernel.directoryOf] at heq
    rw [paging_setPcb, heq]
    exact ⟨s.paging, .inl ⟨h0, rfl⟩, rfl⟩
  · rw [Kernel.directoryOf] at heq
    rw [paging_setPcb, heq]
    exact ⟨_, .inr ⟨f, hf, hfree, rfl⟩, rfl⟩

def twoPages (buf : UInt32) : ProcessMemory := (ProcessMemory.zero.record 0 buf).record 1 userStackTop

/-- Directory `d` is fresh and got a page at `buf` and one for the stack. -/
def ClaimedPages (s : Paging) (d : Fin 32) (buf : UInt32) (s' : Paging) : Prop :=
  s.pageDirectoryUsed d = false ∧
    ∃ s₁, Gives (.entry d) buf { s.created d with cr3 := .entry d } s₁ ∧
      Gives (.entry d) userStackTop s₁ s'

/-- The page of the executable gets a frame when one is left, that of the stack when two are. -/
def Given (buf : UInt32) (frames : ℕ) (p : Fin 1024) : Prop :=
  (p = upperBits buf ∧ 0 < frames) ∨ (p = upperBits userStackTop ∧ 1 < frames)

theorem ne_kernelPage {addr : UInt32} (h : addr < kernelVirtualAddressBase) :
    upperBits addr ≠ 0x300 := by
  intro heq
  have hval := congrArg Fin.val heq
  have hlt := UInt32.lt_iff_toNat_lt.mp h
  have hbase : kernelVirtualAddressBase.toNat = 0x300 * 2 ^ 22 := rfl
  have hpage : ((0x300 : Fin 1024) : ℕ) = 0x300 := rfl
  rw [upperBits_val] at hval
  omega

namespace ClaimedPages
variable {s s' : Paging} {d : Fin 32} {buf : UInt32} {r : DirectoryRef}

theorem framesOk (h : ClaimedPages s d buf s') (hs : s.FramesOk) : s'.FramesOk := by
  obtain ⟨-, s₁, h₁, h₂⟩ := h
  exact h₂.framesOk (by rintro ⟨⟩) (h₁.framesOk (by rintro ⟨⟩) (hs.created.withCr3 _))

theorem onlyDirectory (h : ClaimedPages s d buf s') :
    OnlyDirectory { s.created d with cr3 := .entry d } s' (.entry d) := by
  obtain ⟨-, s₁, h₁, h₂⟩ := h
  exact h₁.onlyDirectory.trans h₂.onlyDirectory

theorem allocatable_eq (h : ClaimedPages s d buf s') : s'.allocatable = s.allocatable - 2 := by
  obtain ⟨-, s₁, h₁, h₂⟩ := h
  have hleft : s₁.allocatable = s.allocatable - 1 := h₁.allocatable_eq
  rw [h₂.allocatable_eq, hleft, Nat.sub_sub]

theorem used (h : ClaimedPages s d buf s') :
    s'.pageDirectoryUsed = Function.update s.pageDirectoryUsed d true := h.onlyDirectory.used

theorem inUse_iff (h : ClaimedPages s d buf s') : s'.InUse r ↔ s.InUse r ∨ r = .entry d := by
  rw [h.onlyDirectory.inUse_iff, inUse_withCr3, inUse_created]

theorem directory_of_ne (h : ClaimedPages s d buf s') (hr : r ≠ .entry d) :
    s'.directory r = s.directory r := by
  rw [h.onlyDirectory.directories r hr, directory_withCr3, directory_created_of_ne hr]

theorem entry_of_ne (h : ClaimedPages s d buf s') {p : Fin 1024} (hbuf : p ≠ upperBits buf)
    (hstack : p ≠ upperBits userStackTop) : s'.directory (.entry d) p = freshDirectory p := by
  obtain ⟨-, s₁, h₁, h₂⟩ := h
  rw [h₂.entry_of_ne (by rintro ⟨⟩) hstack, h₁.entry_of_ne (by rintro ⟨⟩) hbuf, directory_withCr3,
    directory_created_self]

/-- The given pages lead to frames, the others are those of a fresh directory. -/
theorem entry_cases (h : ClaimedPages s d buf s') (p : Fin 1024) :
    (Given buf s.allocatable p ∧ ∃ f, f ≠ 0 ∧ s'.directory (.entry d) p = ⟨userFlag, f⟩) ∨
    (¬Given buf s.allocatable p ∧ s'.directory (.entry d) p = freshDirectory p) := by
  obtain ⟨-, s₁, h₁, h₂⟩ := h
  have hr : DirectoryRef.entry d ≠ .null := by rintro ⟨⟩
  have hleft : s₁.allocatable = s.allocatable - 1 := h₁.allocatable_eq
  -- What the first allocation has left in the entry.
  have hfirst : (p = upperBits buf ∧ 0 < s.allocatable ∧
      ∃ f, f ≠ 0 ∧ s₁.directory (.entry d) p = ⟨userFlag, f⟩) ∨
      (¬(p = upperBits buf ∧ 0 < s.allocatable) ∧ s₁.directory (.entry d) p = freshDirectory p) := by
    by_cases hp : p = upperBits buf
    · subst p
      rcases h₁.entry_self hr with ⟨h0, heq⟩ | ⟨hpos, hf⟩
      · refine .inr ⟨fun hpos => hpos.2.ne' h0, ?_⟩
        rw [heq, directory_withCr3, directory_created_self]
      · exact .inl ⟨rfl, hpos, hf⟩
    · refine .inr ⟨fun hpos => hp hpos.1, ?_⟩
      rw [h₁.entry_of_ne hr hp, directory_withCr3, directory_created_self]
  by_cases hp : p = upperBits userStackTop
  · subst p
    rcases h₂.entry_self hr with ⟨h0, heq⟩ | ⟨hpos, hf⟩
    · have hone : ¬1 < s.allocatable := by omega
      rcases hfirst with ⟨hbuf, hpos, hf⟩ | ⟨hno, hfresh⟩
      · exact .inl ⟨.inl ⟨hbuf, hpos⟩, heq ▸ hf⟩
      · exact .inr ⟨not_or.mpr ⟨hno, fun hstack => hone hstack.2⟩, heq.trans hfresh⟩
    · exact .inl ⟨.inr ⟨rfl, by omega⟩, hf⟩
  · have heq := h₂.entry_of_ne hr hp
    rcases hfirst with ⟨hbuf, hpos, hf⟩ | ⟨hno, hfresh⟩
    · exact .inl ⟨.inl ⟨hbuf, hpos⟩, heq ▸ hf⟩
    · exact .inr ⟨not_or.mpr ⟨hno, fun hstack => hp hstack.1⟩, heq.trans hfresh⟩

theorem backed (h : ClaimedPages s d buf s') (p : Fin 1024)
    (hp : (s'.directory (.entry d) p).UserMapping) :
    (s'.directory (.entry d) p).lowerAddress ≠ 0 := by
  obtain ⟨-, s₁, h₁, h₂⟩ := h
  refine h₂.backed (by rintro ⟨⟩) (h₁.backed (by rintro ⟨⟩) fun q hq => ?_) p hp
  rw [directory_withCr3, directory_created_self] at hq
  exact absurd hq (freshDirectory_not_userMapping q)

/-- The kernel's entry is never the one of a page given to a process. -/
theorem kernelMapped (h : ClaimedPages s d buf s') (hbuf : buf < kernelVirtualAddressBase) :
    s'.directory (.entry d) 0x300 = kernelEntry := by
  rw [h.entry_of_ne (ne_kernelPage hbuf).symm (by decide), freshDirectory, Function.update_self]

end ClaimedPages

/-- The claims of a creation: slot `i`, directory `d` and two pages. -/
structure Claimed (s s' : Kernel) (i : Fin 16) (d : Fin 32) (buf : UInt32) : Prop where
  used : s'.processListUsed = Function.update s.processListUsed i true
  count : s'.activeProcessCount = s.activeProcessCount + 1
  running : s'.currentRunningPid = s.currentRunningPid
  others : ∀ j, j ≠ i → s'.processList j = s.processList j
  directory : s'.directoryOf i = .entry d
  memory : (s'.processList i).memory = twoPages buf
  pages : ClaimedPages s.paging d buf s'.paging

theorem claimSlot_eq {s : Kernel} (h : s.paging.FramesOk)
    (hunused : ∃ d, s.paging.pageDirectoryUsed d = false) (request : DriverRequest) (i : Fin 16) :
    ∃ d s', claimSlot request i s = .ok s' ∧ Claimed s s' i d request.buf := by
  obtain ⟨d, hd, hcreate⟩ := createNewPageDirectory_eq hunused
  let p₀ : Paging := { s.paging.created d with cr3 := .entry d }
  have hp₀ : p₀.FramesOk := h.created.withCr3 _
  have hentry : DirectoryRef.entry d ≠ .null := by rintro ⟨⟩
  let s₀ := openSlot s i (.entry d) p₀
  have hpcb₀ : s₀.processList i = { s.processList i with
      memory := .zero
      context := { (s.processList i).context with pageDirectoryVirtualAddr := .entry d } } :=
    processList_setPcb_self ..
  have hdir₀ : s₀.directoryOf i = .entry d := by rw [Kernel.directoryOf, hpcb₀]
  obtain ⟨p₁, hgive₁, heq₁⟩ := processAllocatePageFrame_eq (s := s₀) hp₀ (k := 0) (hdir₀ ▸ hentry)
    (by rw [hpcb₀]; exact (by decide : (0 : UInt32) < 8))
    (by rw [hpcb₀]; rfl) request.buf
  rw [hdir₀] at hgive₁
  let s₁ := recordPage s₀ i 0 request.buf p₁
  have hpcb₁ : s₁.processList i = { s₀.processList i with
      memory := ProcessMemory.zero.record 0 request.buf } := by
    rw [processList_recordPage_self, hpcb₀]
  have hdir₁ : s₁.directoryOf i = .entry d := by rw [directoryOf_recordPage_self, hdir₀]
  obtain ⟨p₂, hgive₂, heq₂⟩ := processAllocatePageFrame_eq (s := s₁) (hgive₁.framesOk hentry hp₀)
    (k := 1) (hdir₁ ▸ hentry) (by rw [hpcb₁]; exact (by decide : (1 : UInt32) < 8))
    (by rw [hpcb₁]; rfl) userStackTop
  rw [hdir₁] at hgive₂
  refine ⟨d, recordPage s₁ i 1 userStackTop p₂, ?_, ?_⟩
  · rw [claimSlot, hcreate]
    dsimp only
    rw [pagingUsePageDirectory, if_neg hentry]
    dsimp only
    rw [heq₁]
    exact heq₂
  · exact
      { used := rfl
        count := rfl
        running := rfl
        others := fun j hj => by
          rw [processList_recordPage_of_ne _ _ _ _ _ _ hj, processList_recordPage_of_ne _ _ _ _ _ _ hj]
          exact processList_setPcb_of_ne _ _ _ _ hj
        directory := by rw [directoryOf_recordPage_self, hdir₁]
        memory := by rw [processList_recordPage_self, hpcb₁]; rfl
        pages := ⟨hd, p₁, hgive₁, hgive₂⟩ }

theorem clusterFault_eq_none {dir : PageDirectory} {buf : UInt32} :
    clusterFault dir buf = none ↔ ∀ k < 2048, storeFault dir (buf + UInt32.ofNat k) = none := by
  rw [clusterFault, List.findSome?_eq_none_iff]
  exact forall_congr' fun k => by rw [List.mem_range]

theorem storeClusters_eq_ok {dir : PageDirectory} {stores : List (UInt32 × Cluster)} :
    storeClusters dir stores = .ok () ↔
      ∀ st ∈ stores, ∀ k < 2048, storeFault dir (st.1 + UInt32.ofNat k) = none := by
  have hall : stores.findSome? (fun st => clusterFault dir st.1) = none ↔
      ∀ st ∈ stores, ∀ k < 2048, storeFault dir (st.1 + UInt32.ofNat k) = none := by
    rw [List.findSome?_eq_none_iff]
    exact forall₂_congr fun st _ => clusterFault_eq_none
  rw [← hall, storeClusters]
  cases stores.findSome? (fun st => clusterFault dir st.1) with
  | none => exact iff_of_true rfl rfl
  | some f => exact iff_of_false (by rintro ⟨⟩) (by rintro ⟨⟩)

def Kernel.setCr3 (s : Kernel) (pageDir : DirectoryRef) : Kernel :=
  { s with paging := { s.paging with cr3 := pageDir } }

theorem read_stores_eq_nil {request : DriverRequest} {fs : Storage} {code : Int8}
    {stores : List (UInt32 × Cluster)} (h : FileSystem.read request fs = .ok (code, stores))
    (hcode : code ≠ 0) : stores = [] := by
  rw [FileSystem.read] at h
  split at h
  · cases h
  · split at h
    · exact (Prod.mk.inj (Except.ok.inj h)).2.symm
    · dsimp only at h
      split at h
      · exact (Prod.mk.inj (Except.ok.inj h)).2.symm
      · split at h
        · exact (Prod.mk.inj (Except.ok.inj h)).2.symm
        · split at h
          · exact (Prod.mk.inj (Except.ok.inj h)).2.symm
          · split at h
            · cases h
            · exact absurd (Prod.mk.inj (Except.ok.inj h)).1.symm hcode

/-- The checks of a creation are passed, and `i` is the slot it takes. -/
structure Admitted (request : DriverRequest) (s : Kernel) (i : Fin 16) : Prop where
  active : s.activeProcessCount < processCountMax
  buf : request.buf < kernelVirtualAddressBase
  memory : pagingAllocateCheck (pageFrameCountNeeded request) s.paging = true
  pages : pageFrameCountNeeded request ≤ processPageFrameCountMax
  slot : processListGetInactiveIndex s = some i

theorem inactiveIndex_of_unused {s : Kernel} (h : ∃ i, s.processListUsed i = false) :
    ∃ i, processListGetInactiveIndex s = some i := by
  obtain ⟨j, hj⟩ := h
  cases hslot : processListGetInactiveIndex s with
  | some i => exact ⟨i, rfl⟩
  | none =>
    rw [firstClear_eq_none.mp hslot j (List.mem_finRange j)] at hj
    cases hj

theorem Admitted.unused {request : DriverRequest} {s : Kernel} {i : Fin 16}
    (h : Admitted request s i) : s.processListUsed i = false := firstClear_clear h.slot

theorem Admitted.create_eq {request : DriverRequest} {s : Kernel} {i : Fin 16}
    (h : Admitted request s i) (hframes : s.paging.FramesOk)
    (hunused : ∃ d, s.paging.pageDirectoryUsed d = false) :
    ∃ d t, Claimed s t i d request.buf ∧
      ∀ fs, processCreateUserProcess fs request s = loadProcess fs request i s.paging.cr3 t := by
  obtain ⟨d, t, hclaim, ht⟩ := claimSlot_eq hframes hunused request i
  refine ⟨d, t, ht, fun fs => ?_⟩
  have hmemory : ¬(pagingAllocateCheck (pageFrameCountNeeded request) s.paging = false ∨
      pageFrameCountNeeded request > processPageFrameCountMax) := by
    rintro (hcheck | hpages)
    · rw [h.memory] at hcheck
      cases hcheck
    · exact absurd h.pages (UInt32.not_le.mpr hpages)
  rw [processCreateUserProcess, if_neg (UInt32.not_le.mpr h.active), if_neg (UInt32.not_le.mpr h.buf),
    if_neg hmemory, h.slot]
  dsimp only
  rw [hclaim]
  rfl

/-- A creation that is not admitted is refused at the first check that fails, or it finds no slot. -/
theorem create_not_admitted {fs : Storage} {request : DriverRequest} {s : Kernel}
    (h : ∀ i, ¬Admitted request s i) :
    (∃ code, processCreateUserProcess fs request s = .ok (code, s) ∧
      (code = processCreateFailMaxProcessExceeded ∨ code = processCreateFailInvalidEntrypoint ∨
        code = processCreateFailNotEnoughMemory)) ∨
    processCreateUserProcess fs request s = .error .outOfBounds := by
  rw [processCreateUserProcess]
  by_cases hactive : s.activeProcessCount ≥ processCountMax
  · rw [if_pos hactive]
    exact .inl ⟨_, rfl, .inl rfl⟩
  rw [if_neg hactive]
  by_cases hbase : request.buf ≥ kernelVirtualAddressBase
  · rw [if_pos hbase]
    exact .inl ⟨_, rfl, .inr (.inl rfl)⟩
  rw [if_neg hbase]
  by_cases hmemory : pagingAllocateCheck (pageFrameCountNeeded request) s.paging = false ∨
      pageFrameCountNeeded request > processPageFrameCountMax
  · rw [if_pos hmemory]
    exact .inl ⟨_, rfl, .inr (.inr rfl)⟩
  rw [if_neg hmemory]
  cases hslot : processListGetInactiveIndex s with
  | none => exact .inr rfl
  | some i =>
    obtain ⟨hcheck, hpages⟩ := not_or.mp hmemory
    exact absurd ⟨UInt32.not_le.mp hactive, UInt32.not_le.mp hbase,
      Bool.eq_true_of_not_eq_false hcheck, UInt32.not_lt.mp hpages, hslot⟩ (h i)

/-- What a creation that returns has done. -/
inductive CreateOutcome (fs : Storage) (request : DriverRequest) (s : Kernel) :
    Int32 → Kernel → Prop where
  | refused (code : Int32) (hcode : code = processCreateFailMaxProcessExceeded ∨
      code = processCreateFailInvalidEntrypoint ∨ code = processCreateFailNotEnoughMemory) :
      CreateOutcome fs request s code s
  | unreadable (i : Fin 16) (d : Fin 32) (t : Kernel) (code : Int8) (hi : Admitted request s i)
      (ht : Claimed s t i d request.buf) (hread : FileSystem.read request fs = .ok (code, []))
      (hcode : code ≠ 0) :
      CreateOutcome fs request s processCreateFailFsReadFailure (t.setCr3 s.paging.cr3)
  | loaded (i : Fin 16) (d : Fin 32) (t : Kernel) (stores : List (UInt32 × Cluster))
      (hi : Admitted request s i) (ht : Claimed s t i d request.buf)
      (hread : FileSystem.read request fs = .ok (0, stores))
      (hstores : storeClusters (t.paging.directory (.entry d)) stores = .ok ()) :
      CreateOutcome fs request s processCreateSuccess
        (initializeProcess request i (t.setCr3 s.paging.cr3))

theorem Claimed.cr3_eq {s t : Kernel} {i : Fin 16} {d : Fin 32} {buf : UInt32}
    (h : Claimed s t i d buf) : t.paging.cr3 = .entry d := h.pages.onlyDirectory.cr3

section Load
variable {fs : Storage} {request : DriverRequest} {s t : Kernel} {i : Fin 16} {d : Fin 32}
  {r : DirectoryRef}

theorem loadProcess_unreadable (hr : r ≠ .null) {code : Int8}
    {stores : List (UInt32 × Cluster)} (hread : FileSystem.read request fs = .ok (code, stores))
    (hcode : code ≠ 0) :
    loadProcess fs request i r t = .ok (processCreateFailFsReadFailure, t.setCr3 r) := by
  have hnone : storeClusters (t.paging.directory t.paging.cr3) stores = .ok () := by
    rw [read_stores_eq_nil hread hcode]
    rfl
  rw [loadProcess, hread]
  dsimp only
  rw [hnone, pagingUsePageDirectory, if_neg hr]
  dsimp only
  rw [if_pos hcode]
  rfl

theorem loadProcess_loaded (ht : Claimed s t i d request.buf) (hr : r ≠ .null)
    {stores : List (UInt32 × Cluster)} (hread : FileSystem.read request fs = .ok (0, stores))
    (hstores : storeClusters (t.paging.directory (.entry d)) stores = .ok ()) :
    loadProcess fs request i r t =
      .ok (processCreateSuccess, initializeProcess request i (t.setCr3 r)) := by
  rw [loadProcess, hread, ht.cr3_eq]
  dsimp only
  rw [hstores, pagingUsePageDirectory, if_neg hr]
  dsimp only
  rw [if_neg (not_not.mpr rfl)]
  rfl

theorem loadProcess_not_failMemory :
    loadProcess fs request i r s ≠ .ok (processCreateFailNotEnoughMemory, t) := by
  intro h
  rw [loadProcess] at h
  split at h
  · cases h
  · split at h
    · cases h
    · split at h
      · cases h
      · split at h
        · exact absurd (Prod.mk.inj (Except.ok.inj h)).1 (by decide)
        · exact absurd (Prod.mk.inj (Except.ok.inj h)).1 (by decide)

end Load

theorem processCreateUserProcess_outcome {fs : Storage} {request : DriverRequest} {s s' : Kernel}
    {code : Int32} (hframes : s.paging.FramesOk)
    (hunused : ∃ d, s.paging.pageDirectoryUsed d = false) (hcr3 : s.paging.cr3 ≠ .null)
    (h : processCreateUserProcess fs request s = .ok (code, s')) :
    CreateOutcome fs request s code s' := by
  by_cases hadmitted : ∃ i, Admitted request s i
  · obtain ⟨i, hi⟩ := hadmitted
    obtain ⟨d, t, ht, heq⟩ := hi.create_eq hframes hunused
    rw [heq] at h
    cases hread : FileSystem.read request fs with
    | error f =>
      rw [loadProcess, hread] at h
      cases h
    | ok answer =>
      obtain ⟨answer, stores⟩ := answer
      by_cases hcode : answer = 0
      · subst answer
        cases hstores : storeClusters (t.paging.directory (.entry d)) stores with
        | error f =>
          rw [loadProcess, hread, ht.cr3_eq] at h
          dsimp only at h
          rw [hstores] at h
          cases h
        | ok _ =>
          rw [loadProcess_loaded ht hcr3 hread hstores] at h
          obtain ⟨rfl, rfl⟩ := Prod.mk.inj (Except.ok.inj h)
          exact .loaded i d t stores hi ht hread hstores
      · rw [loadProcess_unreadable hcr3 hread hcode] at h
        obtain ⟨rfl, rfl⟩ := Prod.mk.inj (Except.ok.inj h)
        rw [read_stores_eq_nil hread hcode] at hread
        exact .unreadable i d t answer hi ht hread hcode
  · rcases create_not_admitted (not_exists.mp hadmitted) with ⟨answer, heq, hcode⟩ | herror
    · obtain ⟨rfl, rfl⟩ := Prod.mk.inj (Except.ok.inj (heq.symm.trans h))
      exact .refused _ hcode
    · rw [herror] at h
      cases h

end Os2024.Process
