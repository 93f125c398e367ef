import Os2024.FileSystem.RoundTrip
import Os2024.Process.Creation
import Os2024.Process.Transitions

/-! # Isolation of the address spaces

Used slots and used page directories correspond to each other, idle slots record
nothing, and the frame manager's invariant holds. What each event can do is said
once, in a lemma for each of them; the invariant follows from these.
-/

namespace Os2024.Process
open Library.FlagTable Library.Runs Memory Memory.Paging FileSystem

/-- The invariant over the frame map, the directories, their flags and the control blocks. -/
structure Isolated (s : Kernel) : Prop where
  frames : s.paging.FramesOk
  kernelMapped : ∀ r, s.paging.InUse r → s.paging.directory r 0x300 = kernelEntry
  backed : ∀ r, s.paging.InUse r → ∀ p, (s.paging.directory r p).UserMapping →
    (s.paging.directory r p).lowerAddress ≠ 0
  slotDirectory : ∀ i, s.processListUsed i = true →
    ∃ d, s.directoryOf i = .entry d ∧ s.paging.pageDirectoryUsed d = true
  directorySlot : ∀ d, s.paging.pageDirectoryUsed d = true →
    ∃ i, s.processListUsed i = true ∧ s.directoryOf i = .entry d
  slotInjective : ∀ i j d, s.processListUsed i = true → s.processListUsed j = true →
    s.directoryOf i = .entry d → s.directoryOf j = .entry d → i = j
  idle : ∀ i, s.processListUsed i = false → s.directoryOf i = .null ∧
    ∀ k, (s.processList i).memory.dataVirtualAddrUsed k = false
  loaded : s.paging.cr3 ≠ .null

/-- There are more directories than slots. -/
theorem Isolated.exists_unused_directory {s : Kernel} (h : Isolated s) :
    ∃ d, s.paging.pageDirectoryUsed d = false := by
  by_contra hall
  have hused : ∀ d, ∃ i, s.processListUsed i = true ∧ s.directoryOf i = .entry d := by
    intro d
    apply h.directorySlot d
    by_contra hd
    exact hall ⟨d, Bool.eq_false_of_not_eq_true hd⟩
  choose slot hslot using hused
  have hinj : Function.Injective slot := by
    intro d d' hdd
    have heq := (hslot d).2.symm.trans (hdd ▸ (hslot d').2)
    exact DirectoryRef.entry.inj heq
  have hcard := Fintype.card_le_of_injective slot hinj
  rw [Fintype.card_fin, Fintype.card_fin] at hcard
  exact absurd hcard (by decide)

theorem Isolated.owns {s : Kernel} (h : Isolated s) (i : Fin 16) : Owns s i := by
  cases hi : s.processListUsed i with
  | false => exact .inl (h.idle i hi)
  | true => exact .inr (h.slotDirectory i hi)

theorem Isolated.congr {s s' : Kernel} (h : Isolated s) {r : DirectoryRef} (hr : r ≠ .null)
    (hpaging : s'.paging = { s.paging with cr3 := r })
    (hused : s'.processListUsed = s.processListUsed)
    (hdir : ∀ i, s'.directoryOf i = s.directoryOf i)
    (hmemory : ∀ i, (s'.processList i).memory = (s.processList i).memory) : Isolated s' where
  frames := hpaging ▸ h.frames.withCr3 r
  kernelMapped r' hr' := by
    rw [hpaging] at hr' ⊢
    rw [directory_withCr3]
    exact h.kernelMapped r' ((inUse_withCr3 _ _ _).mp hr')
  backed r' hr' := by
    rw [hpaging] at hr' ⊢
    rw [directory_withCr3]
    exact h.backed r' ((inUse_withCr3 _ _ _).mp hr')
  slotDirectory i hi := by
    rw [hdir, hpaging]
    exact h.slotDirectory i (hused ▸ hi)
  directorySlot d hd := by
    rw [hpaging] at hd
    obtain ⟨i, hi, heq⟩ := h.directorySlot d hd
    exact ⟨i, hused ▸ hi, (hdir i).trans heq⟩
  slotInjective i j d hi hj hid hjd := by
    rw [hdir] at hid hjd
    exact h.slotInjective i j d (hused ▸ hi) (hused ▸ hj) hid hjd
  idle i hi := by
    rw [hdir, hmemory]
    exact h.idle i (hused ▸ hi)
  loaded := by
    rw [hpaging]
    exact hr

theorem Isolated.claimed {s t : Kernel} (h : Isolated s) {i : Fin 16} {d : Fin 32} {buf : UInt32}
    (ht : Claimed s t i d buf) (hi : s.processListUsed i = false)
    (hbuf : buf < kernelVirtualAddressBase) : Isolated t := by
  have hunused : s.paging.pageDirectoryUsed d = false := ht.pages.1
  have hdir : ∀ j, j ≠ i → t.directoryOf j = s.directoryOf j := fun j hj =>
    congrArg (fun pcb => pcb.context.pageDirectoryVirtualAddr) (ht.others j hj)
  have hothers : ∀ j, j ≠ i → t.processListUsed j = s.processListUsed j := by
    intro j hj
    rw [ht.used, Function.update_of_ne hj]
  -- No other used slot has the new directory.
  have hfresh : ∀ j, j ≠ i → t.processListUsed j = true → t.directoryOf j ≠ .entry d := by
    intro j hj hused hjd
    rw [hothers j hj] at hused
    rw [hdir j hj] at hjd
    obtain ⟨d', hd', hd'used⟩ := h.slotDirectory j hused
    obtain rfl := DirectoryRef.entry.inj (hjd.symm.trans hd')
    rw [hunused] at hd'used
    cases hd'used
  constructor
  case frames => exact ht.pages.framesOk h.frames
  case kernelMapped =>
    intro r hr
    by_cases hrd : r = .entry d
    · rw [hrd]
      exact ht.pages.kernelMapped hbuf
    · rw [ht.pages.directory_of_ne hrd]
      exact h.kernelMapped r ((ht.pages.inUse_iff.mp hr).resolve_right hrd)
  case backed =>
    intro r hr
    by_cases hrd : r = .entry d
    · rw [hrd]
      exact ht.pages.backed
    · rw [ht.pages.directory_of_ne hrd]
      exact h.backed r ((ht.pages.inUse_iff.mp hr).resolve_right hrd)
  case slotDirectory =>
    intro j hj
    by_cases hji : j = i
    · subst j
      exact ⟨d, ht.directory, by rw [ht.pages.used, Function.update_self]⟩
    · rw [hothers j hji] at hj
      obtain ⟨d', hd', hused⟩ := h.slotDirectory j hj
      refine ⟨d', (hdir j hji).trans hd', ?_⟩
      have hne : d' ≠ d := by
        rintro rfl
        rw [hunused] at hused
        cases hused
      rw [ht.pages.used, Function.update_of_ne hne, hused]
  case directorySlot =>
    intro d' hd'
    by_cases hdd : d' = d
    · subst d'
      exact ⟨i, by rw [ht.used, Function.update_self], ht.directory⟩
    · rw [ht.pages.used, Function.update_of_ne hdd] at hd'
      obtain ⟨j, hj, heq⟩ := h.directorySlot d' hd'
      have hji : j ≠ i := by
        rintro rfl
        rw [hi] at hj
        cases hj
      exact ⟨j, (hothers j hji).trans hj, (hdir j hji).trans heq⟩
  case slotInjective =>
    intro j k d' hj hk hjd hkd
    by_cases hji : j = i <;> by_cases hki : k = i
    · rw [hji, hki]
    · subst j
      rw [ht.directory] at hjd
      exact absurd (hkd.trans hjd.symm) (hfresh k hki hk)
    · subst k
      rw [ht.directory] at hkd
      exact absurd (hjd.trans hkd.symm) (hfresh j hji hj)
    · rw [hothers j hji] at hj
      rw [hothers k hki] at hk
      rw [hdir j hji] at hjd
      rw [hdir k hki] at hkd
      exact h.slotInjective j k d' hj hk hjd hkd
  case idle =>
    intro j hj
    have hji : j ≠ i := by
      rintro rfl
      rw [ht.used, Function.update_self] at hj
      cases hj
    rw [hdir j hji, ht.others j hji]
    exact h.idle j ((hothers j hji).symm.trans hj)
  case loaded =>
    rw [ht.cr3_eq]
    rintro ⟨⟩

theorem directoryOf_initializeProcess (request : DriverRequest) (i j : Fin 16) (s : Kernel) :
    (initializeProcess request i s).directoryOf j = s.directoryOf j := by
  by_cases hj : j = i
  · subst j
    rw [Kernel.directoryOf, initializeProcess, processList_setPcb_self]
    rfl
  · rw [Kernel.directoryOf, initializeProcess, processList_setPcb_of_ne _ _ _ _ hj,
      Kernel.directoryOf]

theorem memory_initializeProcess (request : DriverRequest) (i j : Fin 16) (s : Kernel) :
    ((initializeProcess request i s).processList j).memory = (s.processList j).memory := by
  by_cases hj : j = i
  · subst j
    rw [initializeProcess, processList_setPcb_self]
  · rw [initializeProcess, processList_setPcb_of_ne _ _ _ _ hj]

theorem Isolated.create_outcome {fs : Storage} {request : DriverRequest} {s s' : Kernel}
    {code : Int32} (h : Isolated s) (hcreate : processCreateUserProcess fs request s = .ok (code, s')) :
    CreateOutcome fs request s code s' :=
  processCreateUserProcess_outcome h.frames h.exists_unused_directory h.loaded hcreate

/-- A success comes from an admitted request whose executable was loaded. -/
theorem Isolated.create_success {fs : Storage} {request : DriverRequest} {s s' : Kernel}
    (h : Isolated s)
    (hcreate : processCreateUserProcess fs request s = .ok (processCreateSuccess, s')) :
    ∃ i d t stores, Admitted request s i ∧ Claimed s t i d request.buf ∧
      FileSystem.read request fs = .ok (0, stores) ∧
      storeClusters (t.paging.directory (.entry d)) stores = .ok () ∧
      s' = initializeProcess request i (t.setCr3 s.paging.cr3) := by
  generalize hcode : processCreateSuccess = code at hcreate
  cases h.create_outcome hcreate with
  | refused code hrefused =>
    subst code
    rcases hrefused with hrefused | hrefused | hrefused <;> exact absurd hrefused (by decide)
  | unreadable i d t answer hi ht hread hanswer => exact absurd hcode (by decide)
  | loaded i d t stores hi ht hread hstores => exact ⟨i, d, t, stores, hi, ht, hread, hstores, rfl⟩

theorem Isolated.create {fs : Storage} {request : DriverRequest} {s s' : Kernel} {code : Int32}
    (h : Isolated s) (hcreate : processCreateUserProcess fs request s = .ok (code, s')) :
    Isolated s' := by
  cases h.create_outcome hcreate with
  | refused code hcode => exact h
  | unreadable i d t answer hi ht hread hcode =>
    exact (h.claimed ht hi.unused hi.buf).congr h.loaded rfl rfl (fun _ => rfl) fun _ => rfl
  | loaded i d t stores hi ht hread hstores =>
    exact (h.claimed ht hi.unused hi.buf).congr h.loaded rfl rfl
      (fun j => directoryOf_initializeProcess request i j _)
      fun j => memory_initializeProcess request i j _

theorem Isolated.destroyed {s s' : Kernel} {i : Fin 16} (h : Isolated s) (hd : Destroyed s s' i) :
    Isolated s' := by
  have hpcb : ∀ j, j ≠ i → s'.processList j = s.processList j := by
    intro j hj
    rw [hd.processes, Function.update_of_ne hj]
  have hdir : ∀ j, j ≠ i → s'.directoryOf j = s.directoryOf j := fun j hj =>
    congrArg (fun pcb => pcb.context.pageDirectoryVirtualAddr) (hpcb j hj)
  have hused : ∀ j, s'.processListUsed j = true → j ≠ i ∧ s.processListUsed j = true := by
    intro j hj
    have hji : j ≠ i := by
      rintro rfl
      rw [hd.used, Function.update_self] at hj
      cases hj
    rw [hd.used, Function.update_of_ne hji] at hj
    exact ⟨hji, hj⟩
  constructor
  case frames => exact hd.frames
  case kernelMapped =>
    intro r hr
    obtain ⟨hin, hne⟩ := (hd.inUse r).mp hr
    rw [hd.directories r hne]
    exact h.kernelMapped r hin
  case backed =>
    intro r hr
    obtain ⟨hin, hne⟩ := (hd.inUse r).mp hr
    rw [hd.directories r hne]
    exact h.backed r hin
  case slotDirectory =>
    intro j hj
    obtain ⟨hji, hold⟩ := hused j hj
    obtain ⟨d, hjd, hdused⟩ := h.slotDirectory j hold
    refine ⟨d, (hdir j hji).trans hjd, ((hd.inUse (.entry d)).mpr ⟨hdused, fun heq => ?_⟩)⟩
    -- The directory belongs to slot `j`, so slot `i` cannot have it.
    cases hi : s.processListUsed i with
    | false =>
      rw [(h.idle i hi).1] at heq
      cases heq
    | true => exact hji (h.slotInjective j i d hold hi hjd heq.symm)
  case directorySlot =>
    intro d hdused
    obtain ⟨hin, hne⟩ := (hd.inUse (.entry d)).mp hdused
    obtain ⟨j, hj, hjd⟩ := h.directorySlot d hin
    have hji : j ≠ i := by
      rintro rfl
      exact hne hjd.symm
    refine ⟨j, ?_, (hdir j hji).trans hjd⟩
    rw [hd.used, Function.update_of_ne hji, hj]
  case slotInjective =>
    intro j k d hj hk hjd hkd
    obtain ⟨hji, hjold⟩ := hused j hj
    obtain ⟨hki, hkold⟩ := hused k hk
    rw [hdir j hji] at hjd
    rw [hdir k hki] at hkd
    exact h.slotInjective j k d hjold hkold hjd hkd
  case idle =>
    intro j hj
    by_cases hji : j = i
    · subst j
      rw [Kernel.directoryOf, hd.processes, Function.update_self]
      exact ⟨rfl, fun _ => rfl⟩
    · rw [hdir j hji, hpcb j hji]
      apply h.idle j
      rw [hd.used, Function.update_of_ne hji] at hj
      exact hj
  case loaded =>
    rw [hd.cr3]
    exact h.loaded

/-- A destruction returns: it changes nothing, or it clears the slot of the process. -/
theorem Isolated.destroy_cases {s s' : Kernel} {pid : UInt32} {flags : Fin 8 → PageDirectoryEntryFlag}
    {b : Bool} (h : Isolated s) (hdestroy : processDestroy pid flags s = .ok (b, s')) :
    (¬pid.toNat < 16 ∧ s' = s) ∨ ∃ i : Fin 16, pid.toNat = i ∧ Destroyed s s' i := by
  by_cases hpid : pid.toNat < 16
  · obtain ⟨t, ht, hd⟩ := processDestroy_eq h.frames (i := ⟨pid.toNat, hpid⟩) rfl (h.owns _) flags
    obtain ⟨-, rfl⟩ := Prod.mk.inj (Except.ok.inj (ht.symm.trans hdestroy))
    exact .inr ⟨_, rfl, hd⟩
  · rw [processDestroy_outside hpid] at hdestroy
    exact .inl ⟨hpid, (Prod.mk.inj (Except.ok.inj hdestroy)).2.symm⟩

theorem Isolated.destroy {s s' : Kernel} {pid : UInt32} {flags : Fin 8 → PageDirectoryEntryFlag}
    {b : Bool} (h : Isolated s) (hdestroy : processDestroy pid flags s = .ok (b, s')) :
    Isolated s' := by
  rcases h.destroy_cases hdestroy with ⟨-, rfl⟩ | ⟨i, -, hd⟩
  · exact h
  · exact h.destroyed hd

theorem Isolated.tick {s s' : Kernel} {ctx handed : Context} (h : Isolated s)
    (htick : timerTick ctx s = .ok (handed, s')) : Isolated s' := by
  obtain ⟨t, i, hsaved, -, hnull, -, rfl⟩ := timerTick_outcome htick
  have hpaging : (switchTo i t).paging = { s.paging with cr3 := t.directoryOf i } := by
    rw [← hsaved.paging]
    rfl
  refine h.congr hnull hpaging hsaved.used (fun j => ?_) fun j => ?_
  · rw [directoryOf_switchTo, hsaved.directoryOf]
  · rw [memory_switchTo, hsaved.memory]

section Events
variable {s s' : Kernel} {b : Bool} {flags : Fin 8 → PageDirectoryEntryFlag}

theorem Step.create {fs : Storage} {request : DriverRequest} {code : Int32}
    (h : processCreateUserProcess fs request s = .ok (code, s')) : Step s (.create fs request) s' :=
  congrArg (Except.map Prod.snd) h

theorem Step.terminate (h : processDestroy s.currentRunningPid flags s = .ok (b, s')) :
    Step s (.terminate flags) s' := congrArg (Except.map Prod.snd) h

theorem Step.kill {pid : UInt32} (h : processDestroy pid flags s = .ok (b, s')) :
    Step s (.kill pid flags) s' := congrArg (Except.map Prod.snd) h

end Events

/-- The step lemma. -/
theorem Isolated.step {s s' : Kernel} {event : Event} (h : Isolated s) (hstep : Step s event s') :
    Isolated s' := by
  cases event with
  | create fs request =>
    obtain ⟨code, hcreate⟩ := map_snd_eq_ok hstep
    exact h.create hcreate
  | terminate flags =>
    obtain ⟨b, hdestroy⟩ := map_snd_eq_ok hstep
    exact h.destroy hdestroy
  | kill pid flags =>
    obtain ⟨b, hdestroy⟩ := map_snd_eq_ok hstep
    exact h.destroy hdestroy
  | tick ctx =>
    obtain ⟨handed, htick⟩ := map_snd_eq_ok hstep
    exact h.tick htick

/-- Frame 0 is always free, so the check of the available memory is passed whenever the count of
frames is small. -/
theorem Isolated.pagingAllocateCheck {s : Kernel} (h : Isolated s) {amount : UInt32}
    (hamount : amount ≤ processPageFrameCountMax) : pagingAllocateCheck amount s.paging = true := by
  have hle := UInt32.le_iff_toNat_le.mp hamount
  have hmax : processPageFrameCountMax.toNat = 8 := rfl
  have hneeded : (ceil32 (floatDiv amount pageFrameSize)).toNat = (amount.toNat + 2 ^ 22 - 1) / 2 ^ 22 :=
    ceilDiv_toNat (by omega) rfl (by norm_num)
  have hpos : 0 < clearCount Finset.univ s.paging.pageFrameMap :=
    clearCount_pos (Finset.mem_univ 0) h.frames.frame0
  rw [Memory.pagingAllocateCheck]
  refine decide_eq_true (UInt32.le_iff_toNat_le.mpr ?_)
  rw [hneeded, h.frames.count]
  omega

/-- The states that events lead to after the kernel has allocated its first page. -/
def Reachable (s : Kernel) : Prop :=
  ∃ s₀, allocateFirstPage initialKernel = .ok s₀ ∧ Run Step s₀ s

def kernelStart : Kernel := { initialKernel with paging := initialPaging.allocated .kernel 0 1 }

theorem allocateFirstPage_eq : allocateFirstPage initialKernel = .ok kernelStart := rfl

theorem reachable_kernelStart : Reachable kernelStart :=
  ⟨kernelStart, allocateFirstPage_eq, .refl kernelStart⟩

theorem initialPaging_framesOk : initialPaging.FramesOk where
  exclusive := by
    have hnone : ∀ k : DirectoryRef × Fin 1024, initialPaging.InUse k.1 →
        initialPaging.target k = none := by
      rintro ⟨r, p⟩ hr
      apply target_eq_none.mpr
      cases r with
      | null => rfl
      | kernel => exact freshDirectory_lowerAddress p
      | entry d => cases hr
    constructor
    · intro k f hk hf
      rw [hnone k hk] at hf
      cases hf
    · intro k k' f hk hk' hf
      rw [hnone k hk] at hf
      cases hf
  frame0 := rfl
  count := by decide

theorem kernelStart_isolated : Isolated kernelStart := by
  have hgives : Gives .kernel 0 initialPaging kernelStart.paging :=
    .inr ⟨1, by decide, rfl, rfl⟩
  have hkernel : ∀ r, kernelStart.paging.InUse r → r = .kernel := by
    intro r hr
    cases r with
    | null => cases hr
    | kernel => rfl
    | entry d => cases hr
  constructor
  case frames => exact hgives.framesOk (by rintro ⟨⟩) initialPaging_framesOk
  case kernelMapped =>
    intro r hr
    rw [hkernel r hr, hgives.entry_of_ne (by rintro ⟨⟩) (by decide)]
    rfl
  case backed =>
    intro r hr
    rw [hkernel r hr]
    exact hgives.backed (by rintro ⟨⟩) fun p hp => absurd hp (freshDirectory_not_userMapping p)
  case slotDirectory =>
    intro i hi
    cases hi
  case directorySlot =>
    intro d hd
    cases hd
  case slotInjective =>
    intro i j d hi
    cases hi
  case idle =>
    intro i _
    exact ⟨rfl, fun _ => rfl⟩
  case loaded => rintro ⟨⟩

theorem Reachable.isolated {s : Kernel} (h : Reachable s) : Isolated s := by
  obtain ⟨s₀, hs₀, hrun⟩ := h
  obtain rfl := Except.ok.inj (allocateFirstPage_eq.symm.trans hs₀)
  exact hrun.invariant kernelStart_isolated fun _ _ _ hs hstep => hs.step hstep

theorem Reachable.step {s s' : Kernel} {event : Event} (h : Reachable s) (hstep : Step s event s') :
    Reachable s' := by
  obtain ⟨s₀, hs₀, hrun⟩ := h
  exact ⟨s₀, hs₀, hrun.tail hstep⟩

def noteProgram : DriverRequest := { noteRequest with buf := 0, bufferSize := 4096 }

theorem noteProgram_pages : pageFrameCountNeeded noteProgram ≤ processPageFrameCountMax := by
  have hneeded : (pageFrameCountNeeded noteProgram).toNat = 2 :=
    ceilDiv_toNat (k := 22) (by decide) rfl (by norm_num)
  exact UInt32.le_iff_toNat_le.mpr (hneeded.trans_le (by decide))

/-- An executable that lies in page 0 is loaded whenever a frame is left. -/
theorem Admitted.create_low {fs : Storage} {request : DriverRequest} {s : Kernel} {i : Fin 16}
    {stores : List (UInt32 × Cluster)} (h : Admitted request s i) (hs : Isolated s)
    (hbuf : request.buf = 0) (hframe : 0 < s.paging.allocatable)
    (hread : FileSystem.read request fs = .ok (0, stores))
    (hlow : ∀ st ∈ stores, ∀ k < 2048, (st.1 + UInt32.ofNat k).toNat < 4096) :
    ∃ d t, Claimed s t i d 0 ∧ processCreateUserProcess fs request s =
      .ok (processCreateSuccess, initializeProcess request i (t.setCr3 s.paging.cr3)) := by
  obtain ⟨d, t, ht, heq⟩ := h.create_eq hs.frames hs.exists_unused_directory
  refine ⟨d, t, hbuf ▸ ht, ?_⟩
  rw [heq, loadProcess_loaded ht hs.loaded hread]
  rw [hbuf] at ht
  apply storeClusters_eq_ok.mpr
  intro st hst k hk
  have haddr := hlow st hst k hk
  have hpage : upperBits (st.1 + UInt32.ofNat k) = 0 := by
    refine Fin.ext ?_
    rw [upperBits_val, Nat.div_eq_of_lt (by omega)]
    rfl
  rcases ht.pages.entry_cases 0 with ⟨-, f, -, hentry⟩ | ⟨hno, -⟩
  · have himage : linkerKernelVirtualAddrStart.toNat = 0xC0100000 := rfl
    have habove : ¬linkerKernelVirtualAddrStart ≤ st.1 + UInt32.ofNat k := by
      rw [UInt32.le_iff_toNat_le, himage]
      omega
    rw [storeFault, hpage, hentry, if_neg (by decide : ¬userFlag.presentBit = false), if_neg habove]
  · exact absurd (.inl ⟨(by decide : 0 = upperBits 0), hframe⟩) hno

theorem create_note_sized {fs : Storage} (hfs : HoldsNote fs) {s : Kernel} (h : Isolated s)
    (hactive : s.activeProcessCount < processCountMax) {i : Fin 16}
    (hslot : processListGetInactiveIndex s = some i) (hframe : 0 < s.paging.allocatable)
    (bufferSize : UInt32) (hsize : 4096 ≤ bufferSize.toNat)
    (hpages : pageFrameCountNeeded { noteProgram with bufferSize := bufferSize } ≤
      processPageFrameCountMax) :
    ∃ d t, Claimed s t i d 0 ∧
      processCreateUserProcess fs { noteProgram with bufferSize := bufferSize } s =
        .ok (processCreateSuccess, initializeProcess { noteProgram with bufferSize := bufferSize } i
          (t.setCr3 s.paging.cr3)) := by
  have hadm : Admitted { noteProgram with bufferSize := bufferSize } s i :=
    ⟨hactive, (by decide : (0 : UInt32) < kernelVirtualAddressBase), h.pagingAllocateCheck hpages,
      hpages, hslot⟩
  obtain ⟨c, c', hread⟩ := hfs
  refine hadm.create_low h rfl hframe (hread 0 bufferSize hsize) fun st hst k hk => ?_
  have hunit : clusterSize.toNat = 2048 := rfl
  rcases List.mem_pair.mp hst with rfl | rfl
  · rw [UInt32.toNat_add, UInt32.toNat_ofNat']
    exact lt_of_eq_of_lt (by rw [UInt32.toNat_zero]; omega) (show k < 4096 by omega)
  · rw [UInt32.toNat_add, UInt32.toNat_add, UInt32.toNat_ofNat', UInt32.toNat_zero, hunit]
    omega

theorem create_note {s : Kernel} (h : Isolated s) (hactive : s.activeProcessCount < processCountMax)
    {i : Fin 16} (hslot : processListGetInactiveIndex s = some i) (hframe : 0 < s.paging.allocatable) :
    ∃ d t, Claimed s t i d 0 ∧ processCreateUserProcess noteStorage noteProgram s =
      .ok (processCreateSuccess, initializeProcess noteProgram i (t.setCr3 s.paging.cr3)) :=
  create_note_sized noteStorage_holdsNote h hactive hslot hframe 4096 le_rfl noteProgram_pages

theorem create_two_notes {fs : Storage} (hfs : HoldsNote fs) : ∃ s₁ s₂,
    processCreateUserProcess noteStorage noteProgram kernelStart = .ok (processCreateSuccess, s₁) ∧
    processCreateUserProcess fs noteProgram s₁ = .ok (processCreateSuccess, s₂) ∧
    (∀ j, s₁.processListUsed j = true ↔ j = 0) ∧
    (∀ j, s₂.processListUsed j = true ↔ j = 0 ∨ j = 1) ∧
    s₂.currentRunningPid = noProcessRunning := by
  obtain ⟨d, t, ht, hcreate⟩ := create_note kernelStart_isolated (i := 0) (by decide) rfl (by decide)
  have hs₁ := kernelStart_isolated.create hcreate
  obtain ⟨s₁, hs₁_eq⟩ : ∃ s₁, s₁ = initializeProcess noteProgram 0 (t.setCr3 kernelStart.paging.cr3) :=
    ⟨_, rfl⟩
  rw [← hs₁_eq] at hcreate hs₁
  have hcount : s₁.activeProcessCount = kernelStart.activeProcessCount + 1 := by
    rw [hs₁_eq]
    exact ht.count
  have hused : s₁.processListUsed = Function.update kernelStart.processListUsed 0 true := by
    rw [hs₁_eq]
    exact ht.used
  have hleft : s₁.paging.allocatable = kernelStart.paging.allocatable - 2 := by
    rw [hs₁_eq]
    exact ht.pages.allocatable_eq
  have hpid : s₁.currentRunningPid = noProcessRunning := by
    rw [hs₁_eq]
    exact ht.running
  obtain ⟨d', t', ht', hcreate'⟩ := create_note_sized hfs hs₁ (i := 1) (by rw [hcount]; decide)
    (by rw [processListGetInactiveIndex, hused]; rfl) (by rw [hleft]; decide) 4096 le_rfl
    noteProgram_pages
  have hzero : ∀ j, s₁.processListUsed j = true ↔ j = 0 := by
    intro j
    rw [hused, Function.update_apply]
    split_ifs with hj
    · exact iff_of_true rfl hj
    · exact iff_of_false (by rintro ⟨⟩) hj
  refine ⟨s₁, _, hcreate, hcreate', hzero, fun j => ?_, ht'.running.trans hpid⟩
  have hused' : (initializeProcess noteProgram 1 (t'.setCr3 s₁.paging.cr3)).processListUsed =
      Function.update s₁.processListUsed 1 true := ht'.used
  change (initializeProcess noteProgram 1 (t'.setCr3 s₁.paging.cr3)).processListUsed j = true ↔ _
  rw [hused', Function.update_apply]
  split_ifs with hj
  · exact iff_of_true rfl (.inr hj)
  · rw [hzero, or_iff_left hj]

/-- What the frame manager promises to the processes. -/
structure MemoryIsolation (s : Paging) : Prop where
  unshared : ∀ r r' p p', s.InUse r → s.InUse r' → r ≠ r' → (s.directory r p).UserMapping →
    (s.directory r' p').UserMapping →
    (s.directory r p).lowerAddress ≠ (s.directory r' p').lowerAddress
  notFrame0 : ∀ r p, s.InUse r → (s.directory r p).UserMapping → (s.directory r p).lowerAddress ≠ 0
  kernelMapped : ∀ r, s.InUse r → s.directory r 0x300 = kernelEntry
  count : s.freePageFrameCount.toNat = clearCount Finset.univ s.pageFrameMap

/-- No run of creations, destructions and timer interrupts makes two address spaces share a
frame. -/
theorem reachable_memoryIsolation {s : Kernel} (h : Reachable s) : MemoryIsolation s.paging where
  unshared r r' p p' hr hr' hne hp hp' heq := by
    have hiso := h.isolated
    have hne0 := hiso.backed r hr p hp
    have hheld := target_eq_some.mpr ⟨hne0, rfl⟩
    have hheld' := target_eq_some.mpr ⟨hne0, heq.symm⟩
    have hkey := hiso.frames.exclusive.injective hr hr' hheld hheld'
    exact hne (congrArg Prod.fst hkey)
  notFrame0 r p hr := h.isolated.backed r hr p
  kernelMapped := h.isolated.kernelMapped
  count := h.isolated.frames.count

theorem reachable_memoryIsolation_note : ∃ s',
    processCreateUserProcess noteStorage noteProgram kernelStart = .ok (processCreateSuccess, s') ∧
      MemoryIsolation s'.paging := by
  obtain ⟨d, t, -, heq⟩ := create_note kernelStart_isolated (i := 0) (by decide) rfl (by decide)
  exact ⟨_, heq, reachable_memoryIsolation (reachable_kernelStart.step (.create heq))⟩

end Os2024.Process
