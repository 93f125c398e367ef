import Os2024.FileSystem.Guards
import Os2024.Process.Isolation

/-! # What the answer of a creation promises

A refused creation leaves everything as it was, one whose executable cannot be
read does not. A successful one has its memory exactly when two frames were left
and the buffer stays inside the two pages that were given.
-/

namespace Os2024.Process
open Library.FlagTable Memory Memory.Paging FileSystem

structure SameResources (s s' : Kernel) : Prop where
  used : s'.processListUsed = s.processListUsed
  count : s'.activeProcessCount = s.activeProcessCount
  processes : s'.processList = s.processList
  frameMap : s'.paging.pageFrameMap = s.paging.pageFrameMap
  freeCount : s'.paging.freePageFrameCount = s.paging.freePageFrameCount
  directories : s'.paging.pageDirectoryUsed = s.paging.pageDirectoryUsed
  cr3 : s'.paging.cr3 = s.paging.cr3

theorem SameResources.refl (s : Kernel) : SameResources s s := ⟨rfl, rfl, rfl, rfl, rfl, rfl, rfl⟩

def UserWritable (e : PageDirectoryEntry) : Prop :=
  e.flag.presentBit = true ∧ e.flag.userSv = true ∧ e.flag.writeBit = true

instance : DecidablePred UserWritable :=
  fun e => inferInstanceAs (Decidable (e.flag.presentBit = true ∧ e.flag.userSv = true ∧
    e.flag.writeBit = true))

def Kernel.pageOf (s : Kernel) (i : Fin 16) (virtualAddr : UInt32) : PageDirectoryEntry :=
  s.paging.directory (s.directoryOf i) (upperBits virtualAddr)

/-- The process in slot `i` really has its memory. -/
structure HasMemory (request : DriverRequest) (s : Kernel) (i : Fin 16) : Prop where
  recorded : ∀ k, (s.processList i).memory.dataVirtualAddrUsed k = true →
    UserWritable (s.pageOf i ((s.processList i).memory.virtualAddrUsed k)) ∧
    ∀ r p, s.paging.InUse r → r ≠ s.directoryOf i → (s.paging.directory r p).flag.presentBit = true →
      (s.paging.directory r p).lowerAddress ≠
        (s.pageOf i ((s.processList i).memory.virtualAddrUsed k)).lowerAddress
  executable : ∀ j < request.bufferSize.toNat,
    UserWritable (s.pageOf i (request.buf + UInt32.ofNat j))
  stack : UserWritable (s.pageOf i userStackTop)
  counted : (s.processList i).memory.pageFrameUsedCount.toNat =
    (Finset.univ.filter fun p => UserWritable (s.paging.directory (s.directoryOf i) p)).card

/-- The buffer stays in the page of its first byte, or runs over into the page of the stack. -/
def Covered (request : DriverRequest) : Prop :=
  upperBits request.buf ≠ upperBits userStackTop ∧
    (request.buf.toNat % 2 ^ 22 + request.bufferSize.toNat ≤ 2 ^ 22 ∨
      (upperBits request.buf = 0x2FE ∧
        request.buf.toNat % 2 ^ 22 + request.bufferSize.toNat ≤ 2 ^ 23))

theorem stackPage_val : (upperBits userStackTop : ℕ) = 0x2FF := rfl

theorem upperBits_offset (buf : UInt32) {j : ℕ} (hj : j < 2 ^ 32) :
    (upperBits (buf + UInt32.ofNat j) : ℕ) = (buf.toNat + j) % 2 ^ 32 / 2 ^ 22 := by
  rw [upperBits_val, UInt32.toNat_add, UInt32.toNat_ofNat', Nat.mod_eq_of_lt hj]

/-- The two pages cover the buffer when no byte behind them belongs to it. -/
theorem covered_iff {request : DriverRequest} (hbuf : request.buf < kernelVirtualAddressBase) :
    Covered request ↔ upperBits request.buf ≠ upperBits userStackTop ∧
      ∀ j < request.bufferSize.toNat, Given request.buf 2 (upperBits (request.buf + UInt32.ofNat j)) := by
  apply and_congr_right
  intro hne
  have hlt := UInt32.lt_iff_toNat_lt.mp hbuf
  have hbase : kernelVirtualAddressBase.toNat = 0x300 * 2 ^ 22 := rfl
  have hsize := request.bufferSize.toNat_lt
  have hpage := upperBits_val request.buf
  have hne' : request.buf.toNat / 2 ^ 22 ≠ 0x2FF := by
    rw [← hpage, ← stackPage_val]
    exact fun h => hne (Fin.ext h)
  have hlast : upperBits request.buf = 0x2FE ↔ request.buf.toNat / 2 ^ 22 = 0x2FE := by
    rw [← hpage, Fin.ext_iff]
    rfl
  have hgiven : ∀ j < 2 ^ 32, Given request.buf 2 (upperBits (request.buf + UInt32.ofNat j)) ↔
      (request.buf.toNat + j) % 2 ^ 32 / 2 ^ 22 = request.buf.toNat / 2 ^ 22 ∨
        (request.buf.toNat + j) % 2 ^ 32 / 2 ^ 22 = 0x2FF := by
    intro j hj
    rw [Given, Fin.ext_iff, Fin.ext_iff, upperBits_offset _ hj, hpage, stackPage_val]
    simp only [Nat.ofNat_pos, Nat.one_lt_ofNat, and_true]
  rw [hlast]
  constructor
  · intro hfits j hj
    rw [hgiven j (hj.trans hsize)]
    omega
  · intro hall
    by_contra hover
    -- The first byte behind the page of the buffer, or behind the page of the stack.
    by_cases hnext : request.buf.toNat / 2 ^ 22 = 0x2FE
    · have hj := hall (2 ^ 23 - request.buf.toNat % 2 ^ 22) (by omega)
      rw [hgiven _ (by omega)] at hj
      omega
    · have hj := hall (2 ^ 22 - request.buf.toNat % 2 ^ 22) (by omega)
      rw [hgiven _ (by omega)] at hj
      omega

theorem freshDirectory_not_userWritable (p : Fin 1024) : ¬UserWritable (freshDirectory p) :=
  fun h => freshDirectory_not_userMapping p ⟨h.1, h.2.1⟩

theorem ClaimedPages.userWritable_iff {s s' : Paging} {d : Fin 32} {buf : UInt32}
    (h : ClaimedPages s d buf s') (p : Fin 1024) :
    UserWritable (s'.directory (.entry d) p) ↔ Given buf s.allocatable p := by
  rcases h.entry_cases p with ⟨hgiven, f, -, heq⟩ | ⟨hnot, heq⟩
  · rw [heq]
    exact iff_of_true ⟨rfl, rfl, rfl⟩ hgiven
  · rw [heq]
    exact iff_of_false (freshDirectory_not_userWritable p) hnot

theorem card_given (buf : UInt32) (frames : ℕ) {S : Finset (Fin 1024)}
    (hS : ∀ p, p ∈ S ↔ Given buf frames p) :
    S.card = 2 ↔ 1 < frames ∧ upperBits buf ≠ upperBits userStackTop := by
  constructor
  · intro hcard
    obtain ⟨p, q, hpq, rfl⟩ := Finset.card_eq_two.mp hcard
    have hp := (hS p).mp (Finset.mem_insert_self p {q})
    have hq := (hS q).mp (Finset.mem_insert_of_mem (Finset.mem_singleton_self q))
    rcases hp with ⟨rfl, -⟩ | ⟨rfl, hframes⟩ <;> rcases hq with ⟨rfl, -⟩ | ⟨rfl, hframes⟩
    · exact absurd rfl hpq
    · exact ⟨hframes, hpq⟩
    · exact ⟨hframes, hpq.symm⟩
    · exact absurd rfl hpq
  · rintro ⟨hframes, hne⟩
    have heq : S = {upperBits buf, upperBits userStackTop} := by
      ext p
      rw [hS, Given, Finset.mem_insert, Finset.mem_singleton, and_iff_left (Nat.zero_lt_of_lt hframes),
        and_iff_left hframes]
    rw [heq, Finset.card_pair hne]

theorem given_mono {buf : UInt32} {frames : ℕ} {p : Fin 1024} (hframes : 1 < frames) :
    Given buf frames p ↔ Given buf 2 p := by
  rw [Given, Given, and_iff_left (Nat.zero_lt_of_lt hframes), and_iff_left hframes,
    and_iff_left Nat.zero_lt_two, and_iff_left Nat.one_lt_two]

/-- A created process has its memory exactly when two frames were left and the buffer is covered. -/
theorem Claimed.hasMemory_iff {request : DriverRequest} {s t s' : Kernel} {i : Fin 16} {d : Fin 32}
    (ht : Claimed s t i d request.buf) (hs' : Isolated s')
    (hbuf : request.buf < kernelVirtualAddressBase) (hdir : s'.directoryOf i = .entry d)
    (hentries : s'.paging.directory (.entry d) = t.paging.directory (.entry d))
    (hused : s'.processListUsed i = true) (hmemory : (s'.processList i).memory = twoPages request.buf) :
    HasMemory request s' i ↔ 1 < s.paging.allocatable ∧ Covered request := by
  have hgiven : ∀ p, UserWritable (s'.paging.directory (s'.directoryOf i) p) ↔
      Given request.buf s.paging.allocatable p := by
    intro p
    rw [hdir, hentries]
    exact ht.pages.userWritable_iff p
  have hcard := card_given request.buf s.paging.allocatable
    (S := Finset.univ.filter fun p => UserWritable (s'.paging.directory (s'.directoryOf i) p))
    fun p => by rw [Finset.mem_filter, hgiven, and_iff_right (Finset.mem_univ p)]
  have htwo : (twoPages request.buf).pageFrameUsedCount.toNat = 2 := rfl
  rw [covered_iff hbuf]
  constructor
  · intro h
    have hcounted := h.counted
    rw [hmemory, htwo] at hcounted
    obtain ⟨hframes, hne⟩ := hcard.mp hcounted.symm
    exact ⟨hframes, hne, fun j hj => (given_mono hframes).mp ((hgiven _).mp (h.executable j hj))⟩
  · rintro ⟨hframes, hne, hall⟩
    have hstack : UserWritable (s'.pageOf i userStackTop) :=
      (hgiven _).mpr (.inr ⟨rfl, hframes⟩)
    have hfirst : UserWritable (s'.pageOf i request.buf) :=
      (hgiven _).mpr (.inl ⟨rfl, Nat.zero_lt_of_lt hframes⟩)
    -- A frame that user code may reach is held by one entry only.
    have hunshared : ∀ virtualAddr, UserWritable (s'.pageOf i virtualAddr) → ∀ r p,
        s'.paging.InUse r → r ≠ s'.directoryOf i →
        (s'.paging.directory r p).lowerAddress ≠ (s'.pageOf i virtualAddr).lowerAddress := by
      intro virtualAddr hpage r p hr hne' heq
      have hown : s'.paging.InUse (s'.directoryOf i) := by
        obtain ⟨d', hd', hd'used⟩ := hs'.slotDirectory i hused
        rw [hd']
        exact hd'used
      have hbacked := hs'.backed _ hown _ ⟨hpage.1, hpage.2.1⟩
      have hkey := hs'.frames.exclusive.injective hr hown (target_eq_some.mpr ⟨hbacked, heq⟩)
        (target_eq_some.mpr ⟨hbacked, rfl⟩)
      exact hne' (congrArg Prod.fst hkey)
    refine ⟨fun k hk => ?_, fun j hj => (hgiven _).mpr ((given_mono hframes).mpr (hall j hj)), hstack,
      ?_⟩
    · rw [hmemory] at hk ⊢
      have hk' : k = 0 ∨ k = 1 := by
        revert hk
        simp only [twoPages, ProcessMemory.record, ProcessMemory.zero, Function.update_apply]
        revert k
        decide
      rcases hk' with rfl | rfl
      · exact ⟨hfirst, fun r p hr hne' _ => hunshared request.buf hfirst r p hr hne'⟩
      · exact ⟨hstack, fun r p hr hne' _ => hunshared userStackTop hstack r p hr hne'⟩
    · rw [hmemory, htwo, hcard.mpr ⟨hframes, hne⟩]

/-- The addresses the kernel can store to under a new directory when `frames` frames are left. -/
def Storable (buf : UInt32) (frames : ℕ) (addr : UInt32) : Prop :=
  Given buf frames (upperBits addr) ∨ (upperBits addr = 0x300 ∧ addr < linkerKernelVirtualAddrStart)

/-- The executable can be read, and its clusters go to addresses that can be stored to. -/
def Loads (fs : Storage) (request : DriverRequest) (frames : ℕ) : Prop :=
  ∃ stores, read request fs = .ok (0, stores) ∧
    ∀ st ∈ stores, ∀ k < 2048, Storable request.buf frames (st.1 + UInt32.ofNat k)

theorem ClaimedPages.storeFault_eq_none {s s' : Paging} {d : Fin 32} {buf : UInt32}
    (h : ClaimedPages s d buf s') (hbuf : buf < kernelVirtualAddressBase) (addr : UInt32) :
    storeFault (s'.directory (.entry d)) addr = none ↔ Storable buf s.allocatable addr := by
  have hbase : kernelVirtualAddressBase.toNat = 0x300 * 2 ^ 22 := rfl
  have himage : linkerKernelVirtualAddrStart.toNat = 0x300 * 2 ^ 22 + 2 ^ 20 := rfl
  have hlt := UInt32.lt_iff_toNat_lt.mp hbuf
  rw [Storable, storeFault]
  rcases h.entry_cases (upperBits addr) with ⟨hgiven, f, -, heq⟩ | ⟨hnot, heq⟩
  · have hlow : ¬linkerKernelVirtualAddrStart ≤ addr := by
      rw [UInt32.le_iff_toNat_le, himage]
      have hval := upperBits_val addr
      have hpage := upperBits_val buf
      rcases hgiven with ⟨hp, -⟩ | ⟨hp, -⟩
      · rw [hp, hpage] at hval
        omega
      · rw [hp, stackPage_val] at hval
        omega
    rw [heq, if_neg (by decide : ¬userFlag.presentBit = false), if_neg hlow]
    exact iff_of_true rfl (.inl hgiven)
  · rw [heq]
    by_cases hp : upperBits addr = 0x300
    · rw [hp, freshDirectory, Function.update_self,
        if_neg (by decide : ¬kernelEntry.flag.presentBit = false)]
      rw [hp] at hnot
      by_cases hlow : linkerKernelVirtualAddrStart ≤ addr
      · rw [if_pos hlow]
        apply iff_of_false (by rintro ⟨⟩)
        rintro (hgiven | ⟨-, hlow'⟩)
        · exact hnot hgiven
        · exact absurd hlow (UInt32.not_le.mpr hlow')
      · rw [if_neg hlow]
        exact iff_of_true rfl (.inr ⟨rfl, UInt32.not_le.mp hlow⟩)
    · rw [freshDirectory, Function.update_of_ne hp,
        if_pos (by decide : PageDirectoryEntry.zero.flag.presentBit = false)]
      apply iff_of_false (by rintro ⟨⟩)
      rintro (hgiven | ⟨hpage, -⟩)
      · exact hnot hgiven
      · exact hp hpage

theorem ClaimedPages.storeClusters_eq_ok {s s' : Paging} {d : Fin 32} {buf : UInt32}
    (h : ClaimedPages s d buf s') (hbuf : buf < kernelVirtualAddressBase)
    (stores : List (UInt32 × Cluster)) : storeClusters (s'.directory (.entry d)) stores = .ok () ↔
      ∀ st ∈ stores, ∀ k < 2048, Storable buf s.allocatable (st.1 + UInt32.ofNat k) := by
  rw [Process.storeClusters_eq_ok]
  exact forall₂_congr fun st _ => forall₂_congr fun k _ => h.storeFault_eq_none hbuf _

/-- An admitted creation succeeds exactly when the executable loads. -/
theorem Admitted.create_success_iff {fs : Storage} {request : DriverRequest} {s : Kernel}
    {i : Fin 16} (hi : Admitted request s i) (h : Isolated s) :
    (∃ s', processCreateUserProcess fs request s = .ok (processCreateSuccess, s')) ↔
      Loads fs request s.paging.allocatable := by
  constructor
  · rintro ⟨s', hcreate⟩
    obtain ⟨j, d, t, stores, hj, ht, hread, hstores, -⟩ := h.create_success hcreate
    exact ⟨stores, hread, (ht.pages.storeClusters_eq_ok hj.buf stores).mp hstores⟩
  · rintro ⟨stores, hread, hstorable⟩
    obtain ⟨d, t, ht, heq⟩ := hi.create_eq h.frames h.exists_unused_directory
    have hstores := (ht.pages.storeClusters_eq_ok hi.buf stores).mpr hstorable
    exact ⟨_, (heq fs).trans (loadProcess_loaded ht h.loaded hread hstores)⟩

theorem Admitted.hasMemory_iff {fs : Storage} {request : DriverRequest} {s s' : Kernel}
    {i : Fin 16} (hi : Admitted request s i) (h : Isolated s)
    (hcreate : processCreateUserProcess fs request s = .ok (processCreateSuccess, s')) :
    HasMemory request s' i ↔ 1 < s.paging.allocatable ∧ Covered request := by
  have hs' := h.create hcreate
  obtain ⟨j, d, t, stores, hj, ht, -, -, rfl⟩ := h.create_success hcreate
  obtain rfl : i = j := Option.some.inj (hi.slot.symm.trans hj.slot)
  refine ht.hasMemory_iff hs' hi.buf ?_ rfl ?_ ?_
  · rw [directoryOf_initializeProcess]
    exact ht.directory
  · change t.processListUsed i = true
    rw [ht.used, Function.update_self]
  · rw [memory_initializeProcess]
    exact ht.memory

/-- A creation that passes the checks never reports a lack of memory. -/
theorem Isolated.create_not_failMemory {fs : Storage} {request : DriverRequest} {s s' : Kernel}
    (h : Isolated s) (hbuf : request.buf < kernelVirtualAddressBase)
    (hactive : s.activeProcessCount < processCountMax)
    (hpages : pageFrameCountNeeded request ≤ processPageFrameCountMax) :
    processCreateUserProcess fs request s ≠ .ok (processCreateFailNotEnoughMemory, s') := by
  intro hcreate
  cases hslot : processListGetInactiveIndex s with
  | none =>
    have hmemory : ¬(Memory.pagingAllocateCheck (pageFrameCountNeeded request) s.paging = false ∨
        pageFrameCountNeeded request > processPageFrameCountMax) := by
      rw [h.pagingAllocateCheck hpages]
      exact not_or.mpr ⟨by decide, UInt32.not_lt.mpr hpages⟩
    rw [processCreateUserProcess, if_neg (UInt32.not_le.mpr hactive), if_neg (UInt32.not_le.mpr hbuf),
      if_neg hmemory, hslot] at hcreate
    cases hcreate
  | some i =>
    have hi : Admitted request s i := ⟨hactive, hbuf, h.pagingAllocateCheck hpages, hpages, hslot⟩
    obtain ⟨d, t, ht, heq⟩ := hi.create_eq h.frames h.exists_unused_directory
    rw [heq] at hcreate
    exact loadProcess_not_failMemory hcreate

/-- `ceil(buffer_size / 4 MiB) + 1`. -/
def framesNeeded (request : DriverRequest) : ℕ :=
  (request.bufferSize.toNat + (2 ^ 22 - 1)) / 2 ^ 22 + 1

/-- A success gives the process its memory, and too few frames are reported as such. -/
def ProvidesMemory (fs : Storage) (request : DriverRequest) (s : Kernel) : Prop :=
  (∀ i s', processListGetInactiveIndex s = some i →
    processCreateUserProcess fs request s = .ok (processCreateSuccess, s') →
      HasMemory request s' i) ∧
  (s.paging.allocatable < framesNeeded request →
    ∃ s', processCreateUserProcess fs request s = .ok (processCreateFailNotEnoughMemory, s'))

/-- The promise holds exactly when a full process table comes with enough frames, and a request that
passes the checks finds enough frames and, if it succeeds, stays inside two pages. -/
theorem reachable_providesMemory_iff {s : Kernel} (hs : Reachable s) (fs : Storage)
    {request : DriverRequest} (hbuf : request.buf < kernelVirtualAddressBase) :
    ProvidesMemory fs request s ↔
      (processCountMax ≤ s.activeProcessCount → framesNeeded request ≤ s.paging.allocatable) ∧
      (s.activeProcessCount < processCountMax →
        pageFrameCountNeeded request ≤ processPageFrameCountMax →
        framesNeeded request ≤ s.paging.allocatable ∧
        ((∃ i, s.processListUsed i = false) → Loads fs request s.paging.allocatable →
          2 ≤ s.paging.allocatable ∧ Covered request)) := by
  have h := hs.isolated
  by_cases hactive : processCountMax ≤ s.activeProcessCount
  · have hcreate : processCreateUserProcess fs request s =
        .ok (processCreateFailMaxProcessExceeded, s) := by
      rw [processCreateUserProcess, if_pos hactive]
    have hnot := UInt32.not_lt.mpr hactive
    rw [ProvidesMemory, hcreate]
    constructor
    · rintro ⟨-, hreport⟩
      refine ⟨fun _ => ?_, fun h => absurd h hnot⟩
      by_contra hfew
      obtain ⟨s', heq⟩ := hreport (not_le.mp hfew)
      exact absurd (Prod.mk.inj (Except.ok.inj heq)).1 (by decide)
    · rintro ⟨henough, -⟩
      refine ⟨fun i s' _ heq => ?_, fun hfew => absurd (henough hactive) (not_le.mpr hfew)⟩
      exact absurd (Prod.mk.inj (Except.ok.inj heq)).1 (by decide)
  have hactive' := UInt32.not_le.mp hactive
  by_cases hpages : pageFrameCountNeeded request ≤ processPageFrameCountMax
  · have hadmitted : ∀ i, processListGetInactiveIndex s = some i → Admitted request s i :=
      fun i hi => ⟨hactive', hbuf, h.pagingAllocateCheck hpages, hpages, hi⟩
    constructor
    · rintro ⟨hmemory, hreport⟩
      refine ⟨fun h => absurd h hactive, fun _ _ => ⟨?_, fun hfree hloads => ?_⟩⟩
      · by_contra hfew
        obtain ⟨s', heq⟩ := hreport (not_le.mp hfew)
        exact h.create_not_failMemory hbuf hactive' hpages heq
      · obtain ⟨i, hi⟩ := inactiveIndex_of_unused hfree
        obtain ⟨s', hcreate⟩ := ((hadmitted i hi).create_success_iff h).mpr hloads
        exact ((hadmitted i hi).hasMemory_iff h hcreate).mp (hmemory i s' hi hcreate)
    · rintro ⟨-, hrest⟩
      obtain ⟨henough, hrest⟩ := hrest hactive' hpages
      refine ⟨fun i s' hi hcreate => ?_, fun hfew => absurd henough (not_le.mpr hfew)⟩
      have hloads := ((hadmitted i hi).create_success_iff h).mp ⟨s', hcreate⟩
      exact ((hadmitted i hi).hasMemory_iff h hcreate).mpr
        (hrest ⟨i, (hadmitted i hi).unused⟩ hloads)
  · have hcreate : processCreateUserProcess fs request s =
        .ok (processCreateFailNotEnoughMemory, s) := by
      rw [processCreateUserProcess, if_neg hactive, if_neg (UInt32.not_le.mpr hbuf),
        if_pos (.inr (UInt32.not_le.mp hpages))]
    rw [ProvidesMemory, hcreate]
    refine iff_of_true ⟨fun i s' _ heq => ?_, fun _ => ⟨s, rfl⟩⟩
      ⟨fun h => absurd h hactive, fun _ h => absurd h hpages⟩
    exact absurd (Prod.mk.inj (Except.ok.inj heq)).1 (by decide)

theorem reachable_providesMemory_note : ProvidesMemory noteStorage noteProgram kernelStart := by
  refine (reachable_providesMemory_iff reachable_kernelStart noteStorage (by decide)).mpr
    ⟨fun h => absurd h (by decide), fun _ _ => ⟨by decide, fun _ _ => ⟨by decide, by decide, .inl ?_⟩⟩⟩
  decide

def largeNoteProgram : DriverRequest := { noteProgram with bufferSize := 0x800000 }

/-- The creation succeeds, but the second page of the buffer is not mapped. -/
theorem large_buffer_unmapped : ∃ s',
    processCreateUserProcess noteStorage largeNoteProgram kernelStart =
      .ok (processCreateSuccess, s') ∧
    ¬UserWritable (s'.pageOf 0 (largeNoteProgram.buf + UInt32.ofNat 0x400000)) ∧
    ¬ProvidesMemory noteStorage largeNoteProgram kernelStart := by
  have hpages : pageFrameCountNeeded largeNoteProgram ≤ processPageFrameCountMax := by
    have hneeded : (pageFrameCountNeeded largeNoteProgram).toNat = 3 :=
      ceilDiv_toNat (k := 22) (by decide) rfl (by norm_num)
    exact UInt32.le_iff_toNat_le.mpr (hneeded.trans_le (by decide))
  obtain ⟨d, t, ht, hcreate⟩ := create_note_sized noteStorage_holdsNote kernelStart_isolated (i := 0)
    (by decide) rfl (by decide) 0x800000 (by decide) hpages
  have hunmapped : ¬UserWritable ((initializeProcess largeNoteProgram 0
      (t.setCr3 kernelStart.paging.cr3)).pageOf 0 (largeNoteProgram.buf + UInt32.ofNat 0x400000)) := by
    have hdir : (t.setCr3 kernelStart.paging.cr3).directoryOf 0 = .entry d := ht.directory
    rw [Kernel.pageOf, directoryOf_initializeProcess, hdir]
    apply (ht.pages.userWritable_iff _).not.mpr
    rintro (⟨hp, -⟩ | ⟨hp, -⟩) <;> exact absurd hp (by decide)
  refine ⟨_, hcreate, hunmapped, fun hprovides => hunmapped ?_⟩
  exact (hprovides.1 0 _ rfl hcreate).executable 0x400000 (by decide)

end Os2024.Process
