import Os2024.Memory.Translation
import Os2024.Process.Release
import Os2024.Process.RoundRobin

/-! # The private memories of the processes

The machine is the kernel and the physical memory. Processes store through the
directory that is loaded, the kernel stores for them and to its own page, and a
creation stores the executable through the new directory. `syscall` checks no
pointer, so a system call with a pointer into the kernel's page may change the
kernel in any way. As long as no system call does that, each process has a flat
memory of its own, which its own stores change and nothing else does.
-/

namespace Os2024.Process
open Library.PackedLayout Library.ExclusiveTargets Library.Runs Library.PrivateMemories Memory
  Memory.Paging FileSystem

structure Machine where
  kernel : Kernel
  ram : Os2024.Memory

/-- A store of the kernel through a directory; one that faults is not made. -/
def storeByte (dir : PageDirectory) (ram : Os2024.Memory) (addr : UInt32) (byte : UInt8) :
    Os2024.Memory :=
  match translate dir ⟨false, true⟩ addr with
  | none => ram
  | some pa => Function.update ram pa byte

def storeCluster (dir : PageDirectory) (ram : Os2024.Memory) (st : UInt32 × Cluster) :
    Os2024.Memory :=
  (List.finRange 2048).foldl
    (fun ram (k : Fin 2048) => storeByte dir ram (st.1 + UInt32.ofNat k) (st.2 k)) ram

def storesOf : Except Fault (Int8 × List (UInt32 × Cluster)) → List (UInt32 × Cluster)
  | .error _ => []
  | .ok (_, stores) => stores

/-- The memory after `process_create_user_process`: once the checks are passed and the claims are
made, `read` stores the executable under the new directory. Frames are not cleared. -/
def createMemory (fs : Storage) (request : DriverRequest) (s : Kernel) (ram : Os2024.Memory) :
    Os2024.Memory :=
  if s.activeProcessCount ≥ processCountMax then ram
  else if request.buf ≥ kernelVirtualAddressBase then ram
  else if pagingAllocateCheck (pageFrameCountNeeded request) s.paging = false ∨
      pageFrameCountNeeded request > processPageFrameCountMax then ram
  else
    match processListGetInactiveIndex s with
    | none => ram
    | some i =>
      match claimSlot request i s with
      | .error _ => ram
      | .ok claimed => (storesOf (FileSystem.read request fs)).foldl
          (storeCluster (claimed.paging.directory claimed.paging.cr3)) ram

/-- Only creations store to the frames of processes. -/
def Event.memory (event : Event) (s : Kernel) (ram : Os2024.Memory) : Os2024.Memory :=
  match event with
  | .create fs request => createMemory fs request s ram
  | _ => ram

/-- What happens to the machine: an event of the kernel, a store instruction of the process in slot
`i`, a store of a system call through a pointer of that process, or a store of the kernel to the part of
its own page that is not in `Kernel`. -/
inductive MachineEvent where
  | kernelEvent (event : Event)
  | store (i : Fin 16) (addr : UInt32) (byte : UInt8)
  | deliver (i : Fin 16) (addr : UInt32) (byte : UInt8)
  | kernelStore (addr : UInt32) (byte : UInt8)

structure AddressSpaceLoaded (s : Kernel) (i : Fin 16) : Prop where
  used : s.processListUsed i = true
  loaded : s.paging.cr3 = s.directoryOf i

def Machine.locate (m : Machine) (access : Access) (addr : UInt32) : Option UInt32 :=
  translate (m.kernel.paging.directory m.kernel.paging.cr3) access addr

def Machine.put (m : Machine) (pa : UInt32) (byte : UInt8) : Machine :=
  { m with ram := Function.update m.ram pa byte }

/-- A store of a system call above `kernelVirtualAddressBase` may hit any table of the kernel. -/
inductive MachineStep : Machine → MachineEvent → Machine → Prop
  | kernelEvent {m : Machine} {event : Event} {s' : Kernel} (step : Step m.kernel event s') :
      MachineStep m (.kernelEvent event) ⟨s', event.memory m.kernel m.ram⟩
  | store {m : Machine} {i : Fin 16} {addr pa : UInt32} {byte : UInt8}
      (loaded : AddressSpaceLoaded m.kernel i) (found : m.locate ⟨true, true⟩ addr = some pa) :
      MachineStep m (.store i addr byte) (m.put pa byte)
  | deliver {m : Machine} {i : Fin 16} {addr pa : UInt32} {byte : UInt8}
      (loaded : AddressSpaceLoaded m.kernel i) (low : addr < kernelVirtualAddressBase)
      (found : m.locate ⟨false, true⟩ addr = some pa) :
      MachineStep m (.deliver i addr byte) (m.put pa byte)
  | overwrite {m : Machine} {i : Fin 16} {addr pa : UInt32} {byte : UInt8} (s' : Kernel)
      (loaded : AddressSpaceLoaded m.kernel i) (high : kernelVirtualAddressBase ≤ addr)
      (found : m.locate ⟨false, true⟩ addr = some pa) :
      MachineStep m (.deliver i addr byte) ⟨s', Function.update m.ram pa byte⟩
  | kernelStore {m : Machine} {addr pa : UInt32} {byte : UInt8}
      (inUse : m.kernel.paging.InUse m.kernel.paging.cr3) (page : upperBits addr = 0x300)
      (found : m.locate ⟨false, true⟩ addr = some pa) :
      MachineStep m (.kernelStore addr byte) (m.put pa byte)

/-- Where the byte that the process in slot `i` reads at an address lies. -/
def place (s : Kernel) (k : Fin 16 × UInt32) : Option UInt32 :=
  translate (s.paging.directory (s.directoryOf k.1)) ⟨true, false⟩ k.2

/-- What the process in slot `i` reads is the flat memory `mem`. -/
def Machine.Shows (m : Machine) (i : Fin 16) (mem : Os2024.Memory) : Prop :=
  Keeps (fun addr => place m.kernel (i, addr)) m.ram mem

theorem used_of_place {s : Kernel} (hs : Isolated s) {i : Fin 16} {addr pa : UInt32}
    (h : place s (i, addr) = some pa) : s.processListUsed i = true := by
  cases hi : s.processListUsed i with
  | true => rfl
  | false =>
    rw [place, (hs.idle i hi).1, translate_null] at h
    cases h

/-- A place lies in a frame that the directory of the process holds. -/
theorem target_of_place {s : Kernel} (hs : Isolated s) {i : Fin 16} {addr pa : UInt32}
    (h : place s (i, addr) = some pa) :
    ∃ d, s.directoryOf i = .entry d ∧ s.paging.InUse (.entry d) ∧
      s.paging.target (.entry d, upperBits addr) = some (upperBits pa) := by
  obtain ⟨d, hd, hused⟩ := hs.slotDirectory i (used_of_place hs h)
  rw [place, hd] at h
  have hframe := frame_of_translate h
  have hbacked := hs.backed (.entry d) hused _ (userMapping_of_translate h rfl)
  rw [← hframe] at hbacked
  exact ⟨d, hd, hused, target_eq_some.mpr ⟨hbacked, hframe.symm⟩⟩

/-- No two addresses of processes lie at the same place. -/
theorem place_separate {s : Kernel} (hs : Isolated s) : Separate (place s) := by
  rintro ⟨i, addr⟩ ⟨j, addr'⟩ pa h h'
  obtain ⟨d, hd, hin, ht⟩ := target_of_place hs h
  obtain ⟨d', hd', hin', ht'⟩ := target_of_place hs h'
  have hkey : (DirectoryRef.entry d, upperBits addr) = (DirectoryRef.entry d', upperBits addr') :=
    hs.frames.exclusive.injective hin hin' ht ht'
  obtain ⟨hdir, hpage⟩ := Prod.mk.inj hkey
  obtain rfl := DirectoryRef.entry.inj hdir
  obtain rfl := hs.slotInjective i j d (used_of_place hs h) (used_of_place hs h') hd hd'
  have hpa := (translate_eq_some.mp h).2.trans (translate_eq_some.mp h').2.symm
  exact congrArg (Prod.mk i) (physicalAddr_injective hpa hpage)

theorem place_ne_of_frame0 {s : Kernel} (hs : Isolated s) {pa : UInt32} (hpa : upperBits pa = 0)
    (k : Fin 16 × UInt32) : place s k ≠ some pa := by
  obtain ⟨i, addr⟩ := k
  intro h
  obtain ⟨d, -, -, ht⟩ := target_of_place hs h
  exact (target_eq_some.mp ht).1 hpa

/-- The entries of a directory are pages given to a process or those of a fresh directory. -/
def PlainPages (dir : PageDirectory) : Prop :=
  ∀ p, (∃ frame, dir p = ⟨userFlag, frame⟩) ∨ dir p = freshDirectory p

/-- The processes are isolated, and their directories hold nothing unusual. -/
structure WellMapped (s : Kernel) : Prop extends Isolated s where
  plain : ∀ i, s.processListUsed i = true → PlainPages (s.paging.directory (s.directoryOf i))

section Plain
variable {dir : PageDirectory} {addr pa : UInt32}

theorem PlainPages.of_user (h : PlainPages dir) {access : Access} (access' : Access)
    (huser : access.user = true) (hfound : translate dir access addr = some pa) :
    translate dir access' addr = some pa := by
  rcases h (upperBits addr) with ⟨frame, hgiven⟩ | hfresh
  · rw [translate_given hgiven, ← hfound, translate_given hgiven]
  · have huserMapping := userMapping_of_translate hfound huser
    rw [hfresh] at huserMapping
    exact absurd huserMapping (freshDirectory_not_userMapping _)

/-- What the kernel can store to, user code can read, or it lies in frame 0. -/
theorem PlainPages.of_supervisor (h : PlainPages dir) {access : Access} (access' : Access)
    (hfound : translate dir access addr = some pa) :
    translate dir access' addr = some pa ∨ upperBits pa = 0 := by
  rcases h (upperBits addr) with ⟨frame, hgiven⟩ | hfresh
  · left
    rw [translate_given hgiven, ← hfound, translate_given hgiven]
  · right
    rw [frame_of_translate hfound, hfresh, freshDirectory_lowerAddress]

theorem PlainPages.of_low (h : PlainPages dir) {access access' : Access}
    (hlow : addr < kernelVirtualAddressBase) (hfound : translate dir access addr = some pa) :
    translate dir access' addr = some pa := by
  rcases h (upperBits addr) with ⟨frame, hgiven⟩ | hfresh
  · rw [translate_given hgiven, ← hfound, translate_given hgiven]
  · have hallows := (translate_eq_some.mp hfound).1
    rw [hfresh, freshDirectory, Function.update_of_ne (ne_kernelPage hlow)] at hallows
    exact absurd hallows.1 (by decide)

end Plain

theorem ClaimedPages.plain {s s' : Paging} {d : Fin 32} {buf : UInt32}
    (h : ClaimedPages s d buf s') : PlainPages (s'.directory (.entry d)) := by
  intro p
  rcases h.entry_cases p with ⟨-, f, -, hgiven⟩ | ⟨-, hfresh⟩
  · exact .inl ⟨f, hgiven⟩
  · exact .inr hfresh

def JustCreated (s s' : Kernel) (i : Fin 16) : Prop :=
  ∃ d t buf, Claimed s t i d buf ∧ s'.directoryOf i = .entry d ∧
    s'.paging.directory (.entry d) = t.paging.directory (.entry d)

/-- After a step, a used slot has kept its process, or a creation has just given it one. -/
theorem slot_cases {s s' : Kernel} {event : Event} {i : Fin 16} (hs : Isolated s)
    (hstep : Step s event s') (hi : s'.processListUsed i = true) :
    (s.processListUsed i = true ∧ OtherStep i s event s') ∨ JustCreated s s' i := by
  have hother : ∀ {j : Fin 16}, s'.processListUsed = Function.update s.processListUsed j false →
      i ≠ j ∧ s.processListUsed i = true := by
    intro j hused
    rw [hused] at hi
    by_cases hij : i = j
    · rw [hij, Function.update_self] at hi
      cases hi
    · rw [Function.update_of_ne hij] at hi
      exact ⟨hij, hi⟩
  have hdestroy : ∀ {pid flags b}, event.victim s = some pid →
      processDestroy pid flags s = .ok (b, s') → s.processListUsed i = true ∧ OtherStep i s event s' := by
    intro pid flags b hvictim hd
    rcases hs.destroy_cases hd with ⟨hpid, rfl⟩ | ⟨j, hpid, hd⟩
    · refine ⟨hi, hstep, fun pid' hpid' => ?_⟩
      obtain rfl := Option.some.inj (hvictim.symm.trans hpid')
      have hlt := i.isLt
      omega
    · obtain ⟨hij, hused⟩ := hother hd.used
      refine ⟨hused, hstep, fun pid' hpid' heq => hij ?_⟩
      obtain rfl := Option.some.inj (hvictim.symm.trans hpid')
      exact Fin.ext (heq.symm.trans hpid)
  cases event with
  | create fs request =>
    obtain ⟨code, hcreate⟩ := map_snd_eq_ok hstep
    have hspared : OtherStep i s (.create fs request) s' := ⟨hstep, by rintro pid ⟨⟩⟩
    have hclaim : ∀ {j d t}, Claimed s t j d request.buf → s'.processListUsed = t.processListUsed →
        s'.directoryOf j = t.directoryOf j → s'.paging.directory (.entry d) =
          t.paging.directory (.entry d) →
        (s.processListUsed i = true ∧ OtherStep i s (.create fs request) s') ∨
          JustCreated s s' i := by
      intro j d t ht hused hdir hpages
      by_cases hij : i = j
      · subst j
        exact .inr ⟨d, t, request.buf, ht, hdir.trans ht.directory, hpages⟩
      · rw [hused, ht.used, Function.update_of_ne hij] at hi
        exact .inl ⟨hi, hspared⟩
    cases hs.create_outcome hcreate with
    | refused => exact .inl ⟨hi, hspared⟩
    | unreadable j d t answer hj ht => exact hclaim ht rfl rfl rfl
    | loaded j d t stores hj ht =>
      exact hclaim ht rfl (directoryOf_initializeProcess request j j _) rfl
  | terminate flags =>
    obtain ⟨b, hd⟩ := map_snd_eq_ok hstep
    exact .inl (hdestroy rfl hd)
  | kill pid flags =>
    obtain ⟨b, hd⟩ := map_snd_eq_ok hstep
    exact .inl (hdestroy rfl hd)
  | tick ctx =>
    obtain ⟨handed, htick⟩ := map_snd_eq_ok hstep
    obtain ⟨t, j, hsaved, -, -, -, rfl⟩ := timerTick_outcome htick
    refine .inl ⟨?_, hstep, by rintro pid ⟨⟩⟩
    rw [← hsaved.used]
    exact hi

theorem Isolated.occupies {s : Kernel} (hs : Isolated s) {i : Fin 16}
    (hi : s.processListUsed i = true) : ∃ d,
      Occupies s i d (s.paging.directory (s.directoryOf i)) (s.processList i).memory := by
  obtain ⟨d, hd, -⟩ := hs.slotDirectory i hi
  exact ⟨d, hi, hd, by rw [hd], rfl⟩

/-- The step lemma. -/
theorem WellMapped.step {s s' : Kernel} {event : Event} (h : WellMapped s)
    (hstep : Step s event s') : WellMapped s' := by
  refine ⟨h.toIsolated.step hstep, fun i hi => ?_⟩
  rcases slot_cases h.toIsolated hstep hi with ⟨hused, hspare⟩ | ⟨d, t, buf, ht, hdir, hpages⟩
  · obtain ⟨d, hocc⟩ := h.occupies hused
    have hocc' := hocc.step h.toIsolated hspare
    rw [hocc'.directory, hocc'.pages]
    exact h.plain i hused
  · rw [hdir, hpages]
    exact ht.pages.plain

theorem Reachable.wellMapped {s : Kernel} (h : Reachable s) : WellMapped s := by
  obtain ⟨s₀, hs₀, hrun⟩ := h
  obtain rfl := Except.ok.inj (allocateFirstPage_eq.symm.trans hs₀)
  exact hrun.invariant ⟨kernelStart_isolated, fun i hi => by cases hi⟩
    fun _ _ _ hs hstep => hs.step hstep

/-- A creation is refused, finds no executable, or loads it; memory changes in the last case only. -/
inductive Creation (fs : Storage) (request : DriverRequest) (s : Kernel) (ram : Os2024.Memory) :
    Int32 → Kernel → Os2024.Memory → Prop
  | unloaded {code : Int32} {s' : Kernel} (hcode : code ≠ processCreateSuccess) :
      Creation fs request s ram code s' ram
  | loaded {i : Fin 16} {d : Fin 32} {t : Kernel} {stores : List (UInt32 × Cluster)}
      (admitted : Admitted request s i) (claimed : Claimed s t i d request.buf)
      (read : FileSystem.read request fs = .ok (0, stores))
      (stored : storeClusters (t.paging.directory (.entry d)) stores = .ok ()) :
      Creation fs request s ram processCreateSuccess
        (initializeProcess request i (t.setCr3 s.paging.cr3))
        (stores.foldl (storeCluster (t.paging.directory (.entry d))) ram)

section Create
variable {fs : Storage} {request : DriverRequest} {s s' : Kernel} {ram : Os2024.Memory}
  {code : Int32}

theorem createMemory_not_admitted (h : ∀ i, ¬Admitted request s i)
    (hcreate : processCreateUserProcess fs request s = .ok (code, s')) :
    createMemory fs request s ram = ram ∧ code ≠ processCreateSuccess := by
  constructor
  · rw [createMemory]
    by_cases hactive : s.activeProcessCount ≥ processCountMax
    · rw [if_pos hactive]
    rw [if_neg hactive]
    by_cases hbase : request.buf ≥ kernelVirtualAddressBase
    · rw [if_pos hbase]
    rw [if_neg hbase]
    by_cases hmemory : pagingAllocateCheck (pageFrameCountNeeded request) s.paging = false ∨
        pageFrameCountNeeded request > processPageFrameCountMax
    · rw [if_pos hmemory]
    rw [if_neg hmemory]
    cases hslot : processListGetInactiveIndex s with
    | none => rfl
    | some i =>
      obtain ⟨hcheck, hpages⟩ := not_or.mp hmemory
      exact absurd ⟨UInt32.not_le.mp hactive, UInt32.not_le.mp hbase,
        Bool.eq_true_of_not_eq_false hcheck, UInt32.not_lt.mp hpages, hslot⟩ (h i)
  · rcases create_not_admitted h with ⟨answer, heq, hcode⟩ | herror
    · obtain ⟨rfl, -⟩ := Prod.mk.inj (Except.ok.inj (heq.symm.trans hcreate))
      rcases hcode with rfl | rfl | rfl <;> decide
    · rw [herror] at hcreate
      cases hcreate

theorem Admitted.claims {i : Fin 16} (h : Admitted request s i) (hs : Isolated s) (fs : Storage)
    (ram : Os2024.Memory) :
    ∃ d t, Claimed s t i d request.buf ∧
      processCreateUserProcess fs request s = loadProcess fs request i s.paging.cr3 t ∧
      createMemory fs request s ram = (storesOf (FileSystem.read request fs)).foldl
        (storeCluster (t.paging.directory (.entry d))) ram := by
  obtain ⟨d, t, hclaim, ht⟩ := claimSlot_eq hs.frames hs.exists_unused_directory request i
  have hmemory : ¬(pagingAllocateCheck (pageFrameCountNeeded request) s.paging = false ∨
      pageFrameCountNeeded request > processPageFrameCountMax) := by
    rintro (hcheck | hpages)
    · rw [h.memory] at hcheck
      cases hcheck
    · exact absurd h.pages (UInt32.not_le.mpr hpages)
  refine ⟨d, t, ht, ?_, ?_⟩
  · rw [processCreateUserProcess, if_neg (UInt32.not_le.mpr h.active),
      if_neg (UInt32.not_le.mpr h.buf), if_neg hmemory, h.slot]
    dsimp only
    rw [hclaim]
    rfl
  · rw [createMemory, if_neg (UInt32.not_le.mpr h.active), if_neg (UInt32.not_le.mpr h.buf),
      if_neg hmemory, h.slot]
    dsimp only
    rw [hclaim]
    dsimp only
    rw [ht.cr3_eq]

theorem creation_cases (hs : Isolated s) (ram : Os2024.Memory)
    (hcreate : processCreateUserProcess fs request s = .ok (code, s')) :
    Creation fs request s ram code s' (createMemory fs request s ram) := by
  by_cases hadmitted : ∃ i, Admitted request s i
  · obtain ⟨i, hi⟩ := hadmitted
    obtain ⟨d, t, ht, heq, hram⟩ := hi.claims hs fs ram
    rw [heq] at hcreate
    cases hread : FileSystem.read request fs with
    | error f =>
      rw [loadProcess, hread] at hcreate
      cases hcreate
    | ok answer =>
      obtain ⟨answer, stores⟩ := answer
      rw [hread] at hram
      rw [hram, storesOf]
      by_cases hanswer : answer = 0
      · subst answer
        cases hstores : storeClusters (t.paging.directory (.entry d)) stores with
        | error f =>
          rw [loadProcess, hread, ht.cr3_eq] at hcreate
          dsimp only at hcreate
          rw [hstores] at hcreate
          cases hcreate
        | ok _ =>
          rw [loadProcess_loaded ht hs.loaded hread hstores] at hcreate
          obtain ⟨rfl, rfl⟩ := Prod.mk.inj (Except.ok.inj hcreate)
          exact .loaded hi ht hread hstores
      · rw [loadProcess_unreadable hs.loaded hread hanswer] at hcreate
        obtain ⟨rfl, rfl⟩ := Prod.mk.inj (Except.ok.inj hcreate)
        rw [read_stores_eq_nil hread hanswer]
        exact .unloaded (by decide)
  · obtain ⟨hram, hcode⟩ : createMemory fs request s ram = ram ∧ code ≠ processCreateSuccess :=
      createMemory_not_admitted (not_exists.mp hadmitted) hcreate
    rw [hram]
    exact .unloaded hcode

end Create

theorem foldl_update_bytes {n : ℕ} (hn : n ≤ 2 ^ 32) (mem : Os2024.Memory) (base : UInt32)
    (data : Bytes n) : (List.finRange n).foldl
      (fun mem (k : Fin n) => Function.update mem (base + UInt32.ofNat k) (data k)) mem =
        mem.store base data := by
  have hinj : Function.Injective fun k : Fin n => base + UInt32.ofNat k := by
    intro k k' heq
    have hval := congrArg UInt32.toNat (add_left_cancel heq)
    rw [UInt32.toNat_ofNat', UInt32.toNat_ofNat', Nat.mod_eq_of_lt (by omega),
      Nat.mod_eq_of_lt (by omega)] at hval
    exact Fin.ext hval
  funext addr
  rw [Memory.store]
  split_ifs with hin
  · have haddr : addr = base + UInt32.ofNat (⟨(addr - base).toNat, hin⟩ : Fin n) := by
      rw [UInt32.ofNat_toNat]
      exact (add_sub_cancel base addr).symm
    conv_lhs => rw [haddr]
    exact foldl_update_self _ data hinj (List.nodup_finRange n) (List.mem_finRange _) mem
  · refine foldl_update_of_ne _ data (fun k _ heq => hin ?_) mem
    rw [heq, add_sub_cancel_left, UInt32.toNat_ofNat', Nat.mod_eq_of_lt (by omega)]
    exact k.isLt

section Stores
variable {s : Kernel} {j i : Fin 16} {dir : PageDirectory} {ram mem : Os2024.Memory}

theorem storeByte_other (hs : Isolated s) (hplain : PlainPages dir)
    (hdir : s.paging.directory (s.directoryOf j) = dir) (hij : i ≠ j)
    (h : Keeps (fun addr => place s (i, addr)) ram mem) (addr : UInt32) (byte : UInt8) :
    Keeps (fun addr => place s (i, addr)) (storeByte dir ram addr byte) mem := by
  rw [storeByte]
  split
  · exact h
  · next pa hfound =>
    refine h.update_unseen (fun addr' hplace => ?_) byte
    rcases hplain.of_supervisor ⟨true, false⟩ hfound with hseen | hframe
    · rw [← hdir] at hseen
      have hsame : (i, addr') = (j, addr) := place_separate hs hplace hseen
      exact hij (Prod.mk.inj hsame).1
    · exact place_ne_of_frame0 hs hframe _ hplace

theorem storeByte_self (hs : Isolated s) (hplain : PlainPages dir)
    (hdir : s.paging.directory (s.directoryOf j) = dir)
    (h : Keeps (fun addr => place s (j, addr)) ram mem) (addr : UInt32) (byte : UInt8) :
    Keeps (fun addr => place s (j, addr)) (storeByte dir ram addr byte)
      (Function.update mem addr byte) := by
  have hseparate : Separate fun addr => place s (j, addr) := fun hk hk' =>
    (Prod.mk.inj (place_separate hs hk hk')).2
  have hplace : ∀ {pa}, place s (j, addr) = some pa → translate dir ⟨false, true⟩ addr = some pa := by
    intro pa hpa
    rw [place, hdir] at hpa
    exact hplain.of_user _ rfl hpa
  rw [storeByte]
  split
  · next hnone =>
    refine h.update_unplaced ?_ byte
    cases hpa : place s (j, addr) with
    | none => rfl
    | some pa =>
      rw [hplace hpa] at hnone
      cases hnone
  · next pa hfound =>
    rcases hplain.of_supervisor ⟨true, false⟩ hfound with hseen | hframe
    · rw [← hdir] at hseen
      exact h.update hseparate hseen byte
    · refine (h.update_unseen (fun addr' => place_ne_of_frame0 hs hframe _) byte).update_unplaced ?_ byte
      cases hpa : place s (j, addr) with
      | none => rfl
      | some pa' =>
        obtain rfl := Option.some.inj ((hplace hpa).symm.trans hfound)
        exact absurd hpa (place_ne_of_frame0 hs hframe _)

theorem storeClusters_other (hs : Isolated s) (hplain : PlainPages dir)
    (hdir : s.paging.directory (s.directoryOf j) = dir) (hij : i ≠ j)
    (h : Keeps (fun addr => place s (i, addr)) ram mem) (stores : List (UInt32 × Cluster)) :
    Keeps (fun addr => place s (i, addr)) (stores.foldl (storeCluster dir) ram) mem := by
  induction stores generalizing ram with
  | nil => exact h
  | cons st stores ih =>
    rw [List.foldl_cons]
    apply ih
    rw [storeCluster]
    generalize List.finRange 2048 = ks
    induction ks generalizing ram with
    | nil => exact h
    | cons k ks ihk => exact ihk (storeByte_other hs hplain hdir hij h _ _)

theorem storeBytes_self (hs : Isolated s) (hplain : PlainPages dir)
    (hdir : s.paging.directory (s.directoryOf j) = dir)
    (h : Keeps (fun addr => place s (j, addr)) ram mem) (base : UInt32) {n : ℕ} (data : Bytes n)
    (ks : List (Fin n)) : Keeps (fun addr => place s (j, addr))
      (ks.foldl (fun ram (k : Fin n) => storeByte dir ram (base + UInt32.ofNat k) (data k)) ram)
      (ks.foldl (fun mem (k : Fin n) => Function.update mem (base + UInt32.ofNat k) (data k)) mem) := by
  induction ks generalizing ram mem with
  | nil => exact h
  | cons k ks ih => exact ih (storeByte_self hs hplain hdir h _ _)

theorem storeClusters_self (hs : Isolated s) (hplain : PlainPages dir)
    (hdir : s.paging.directory (s.directoryOf j) = dir)
    (h : Keeps (fun addr => place s (j, addr)) ram mem) (stores : List (UInt32 × Cluster)) :
    Keeps (fun addr => place s (j, addr)) (stores.foldl (storeCluster dir) ram)
      (applyStores mem stores) := by
  induction stores generalizing ram mem with
  | nil => exact h
  | cons st stores ih =>
    rw [List.foldl_cons, applyStores, List.foldl_cons]
    apply ih
    rw [← foldl_update_bytes (by decide) mem st.1 st.2]
    exact storeBytes_self hs hplain hdir h st.1 st.2 _

end Stores

def MachineEvent.applyTo (i : Fin 16) (mem : Os2024.Memory) : MachineEvent → Os2024.Memory
  | .store j addr byte => if j = i then Function.update mem addr byte else mem
  | .deliver j addr byte => if j = i then Function.update mem addr byte else mem
  | _ => mem

/-- No pointer of a system call points into the kernel's page. -/
def MachineEvent.Contained : MachineEvent → Prop
  | .deliver _ addr _ => addr < kernelVirtualAddressBase
  | _ => True

/-- A step that neither destroys the process in slot `i` nor lets a system call overwrite the kernel. -/
structure OtherMachineStep (i : Fin 16) (m : Machine) (a : MachineEvent) (m' : Machine) : Prop where
  step : MachineStep m a m'
  contained : a.Contained
  spared : ∀ event pid, a = .kernelEvent event → event.victim m.kernel = some pid → pid.toNat ≠ i

theorem place_eq_of_occupies {s s' : Kernel} {i : Fin 16} {d : Fin 32} {pages : PageDirectory}
    {memory : ProcessMemory} (h : Occupies s i d pages memory) (h' : Occupies s' i d pages memory)
    (addr : UInt32) : place s' (i, addr) = place s (i, addr) := by
  rw [place, place, h.directory, h'.directory, h.pages, h'.pages]

section Step
variable {m m' : Machine} {i j : Fin 16} {mem : Os2024.Memory} {addr pa : UInt32}

theorem Machine.Shows.put (h : m.Shows i mem) (hs : Isolated m.kernel)
    (hplace : place m.kernel (j, addr) = some pa) (byte : UInt8) :
    (m.put pa byte).Shows i (if j = i then Function.update mem addr byte else mem) := by
  split_ifs with hji
  · subst j
    have hseparate : Separate fun addr => place m.kernel (i, addr) := fun hk hk' =>
      (Prod.mk.inj (place_separate hs hk hk')).2
    exact Keeps.update h hseparate hplace byte
  · refine Keeps.update_unseen h (fun addr' hseen => hji ?_) byte
    have hsame : (j, addr) = (i, addr') := place_separate hs hplace hseen
    exact (Prod.mk.inj hsame).1

theorem Machine.Shows.kernelEvent {event : Event} {s' : Kernel} {d : Fin 32} {pages : PageDirectory}
    {memory : ProcessMemory} (h : m.Shows i mem) (hs : Isolated m.kernel)
    (hocc : Occupies m.kernel i d pages memory) (hocc' : Occupies s' i d pages memory)
    (hstep : Step m.kernel event s') :
    Machine.Shows ⟨s', event.memory m.kernel m.ram⟩ i mem := by
  have hkept : Keeps (fun addr => place s' (i, addr)) m.ram mem := by
    intro addr pa hpa
    exact h addr pa ((place_eq_of_occupies hocc hocc' addr).symm.trans hpa)
  cases event with
  | create fs request =>
    obtain ⟨code, hcreate⟩ := map_snd_eq_ok hstep
    have hs' := hs.step hstep
    have hcreation := creation_cases hs m.ram hcreate
    rw [Event.memory]
    generalize createMemory fs request m.kernel m.ram = ram at hcreation
    cases hcreation with
    | unloaded => exact hkept
    | @loaded j d' t stores admitted claimed =>
      have hij : i ≠ j := by
        rintro rfl
        exact absurd (hocc.used.symm.trans admitted.unused) (by decide)
      refine storeClusters_other (j := j) hs' claimed.pages.plain ?_ hij hkept stores
      rw [directoryOf_initializeProcess]
      exact congrArg t.paging.directory claimed.directory
  | terminate flags => exact hkept
  | kill pid flags => exact hkept
  | tick ctx => exact hkept

/-- The step lemma. -/
theorem OtherMachineStep.shows {a : MachineEvent} (h : OtherMachineStep i m a m')
    (hs : WellMapped m.kernel) {d : Fin 32} {pages : PageDirectory} {memory : ProcessMemory}
    (hocc : Occupies m.kernel i d pages memory) :
    (WellMapped m'.kernel ∧ Occupies m'.kernel i d pages memory) ∧
      ∀ mem, m.Shows i mem → m'.Shows i (a.applyTo i mem) := by
  obtain ⟨hstep, hcontained, hspare⟩ := h
  cases hstep with
  | kernelEvent step =>
    have hocc' := hocc.step hs.toIsolated ⟨step, fun pid hpid => hspare _ pid rfl hpid⟩
    exact ⟨⟨hs.step step, hocc'⟩, fun mem hmem => hmem.kernelEvent hs.toIsolated hocc hocc' step⟩
  | store loaded found =>
    refine ⟨⟨hs, hocc⟩, fun mem hmem => hmem.put hs.toIsolated ?_ _⟩
    rw [Machine.locate, loaded.loaded] at found
    exact (hs.plain _ loaded.used).of_user _ rfl found
  | deliver loaded low found =>
    refine ⟨⟨hs, hocc⟩, fun mem hmem => hmem.put hs.toIsolated ?_ _⟩
    rw [Machine.locate, loaded.loaded] at found
    exact (hs.plain _ loaded.used).of_low low found
  | overwrite s' loaded high found => exact absurd hcontained (UInt32.not_lt.mpr high)
  | @kernelStore addr pa byte inUse page found =>
    refine ⟨⟨hs, hocc⟩, fun mem hmem => ?_⟩
    have hframe : upperBits pa = 0 := by
      rw [frame_of_translate found, page, hs.kernelMapped _ inUse]
      rfl
    exact Keeps.update_unseen hmem (fun addr' => place_ne_of_frame0 hs.toIsolated hframe _) byte

end Step

theorem shows_of_trace {m m' : Machine} {i : Fin 16} {l : List MachineEvent} {mem : Os2024.Memory}
    (hm : Reachable m.kernel) (hi : m.kernel.processListUsed i = true) (hmem : m.Shows i mem)
    (h : Trace (OtherMachineStep i) m l m') :
    WellMapped m'.kernel ∧ m'.kernel.processListUsed i = true ∧
      (∀ addr, place m'.kernel (i, addr) = place m.kernel (i, addr)) ∧
      m'.Shows i (l.foldl (MachineEvent.applyTo i) mem) := by
  obtain ⟨d, hocc⟩ := hm.isolated.occupies hi
  obtain ⟨⟨hm', hocc'⟩, hshows⟩ := h.foldl
    (I := fun n => WellMapped n.kernel ∧ Occupies n.kernel i d _ _)
    (f := fun n mem => n.Shows i mem) (g := MachineEvent.applyTo i)
    (fun _ _ _ hn hstep => hstep.shows hn.1 hn.2) ⟨hm.wellMapped, hocc⟩ hmem
  exact ⟨hm', hocc'.used, place_eq_of_occupies hocc hocc', hshows⟩

/-- A store of user code changes a byte in a frame that was given away, never one of the kernel. -/
theorem store_confined {m m' : Machine} {j : Fin 16} {addr : UInt32} {byte : UInt8}
    (hm : WellMapped m.kernel) (h : MachineStep m (.store j addr byte) m') :
    ∃ pa, m' = m.put pa byte ∧ upperBits pa ≠ 0 ∧ m.kernel.paging.Marked (upperBits pa) := by
  cases h with
  | @store _ _ pa _ loaded found =>
    rw [Machine.locate, loaded.loaded] at found
    have hplace : place m.kernel (j, addr) = some pa := (hm.plain _ loaded.used).of_user _ rfl found
    obtain ⟨d, -, hin, ht⟩ := target_of_place hm.toIsolated hplace
    exact ⟨pa, rfl, (target_eq_some.mp ht).1,
      hm.frames.exclusive.marked (k := (DirectoryRef.entry d, _)) hin ht⟩

/-- As long as no system call is given a pointer into the kernel's page: whatever the other processes
and the kernel do, in any order, a process that is not destroyed keeps its pages, what it reads there is
what was there at first under its own stores, and user code reaches no byte of the kernel's frame. -/
theorem private_memory {m m' : Machine} {i : Fin 16} {l : List MachineEvent} {mem : Os2024.Memory}
    (hm : Reachable m.kernel) (hi : m.kernel.processListUsed i = true) (hmem : m.Shows i mem)
    (h : Trace (OtherMachineStep i) m l m') :
    m'.kernel.processListUsed i = true ∧
      (∀ addr, place m'.kernel (i, addr) = place m.kernel (i, addr)) ∧
      m'.Shows i (l.foldl (MachineEvent.applyTo i) mem) ∧
      ∀ {j addr byte m''}, MachineStep m' (.store j addr byte) m'' →
        ∃ pa, m'' = m'.put pa byte ∧ upperBits pa ≠ 0 ∧ m'.kernel.paging.Marked (upperBits pa) := by
  obtain ⟨hm', hused, hpages, hshows⟩ := shows_of_trace hm hi hmem h
  exact ⟨hused, hpages, hshows, fun hstore => store_confined hm' hstore⟩

/-- A creation that succeeds gives a new process the executable over what its frames held. -/
theorem created_memory {fs : Storage} {request : DriverRequest} {s s' : Kernel} (hs : WellMapped s)
    (ram : Os2024.Memory)
    (hcreate : processCreateUserProcess fs request s = .ok (processCreateSuccess, s')) :
    ∃ i stores mem, s.processListUsed i = false ∧ s'.processListUsed i = true ∧
      FileSystem.read request fs = .ok (0, stores) ∧
      Keeps (fun addr => place s' (i, addr)) ram mem ∧
      Machine.Shows ⟨s', createMemory fs request s ram⟩ i (applyStores mem stores) ∧
      ∀ st ∈ stores, ∀ k < 2048, st.1 + UInt32.ofNat k < kernelVirtualAddressBase →
        ∃ pa, place s' (i, st.1 + UInt32.ofNat k) = some pa := by
  have hs' := hs.toIsolated.create hcreate
  have hcreation := creation_cases hs.toIsolated ram hcreate
  generalize createMemory fs request s ram = ram' at hcreation ⊢
  generalize hcode : processCreateSuccess = code at hcreation
  cases hcreation with
  | unloaded hno => exact absurd hcode.symm hno
  | @loaded i d t stores admitted claimed read stored =>
    have hdir : (initializeProcess request i (t.setCr3 s.paging.cr3)).paging.directory
        ((initializeProcess request i (t.setCr3 s.paging.cr3)).directoryOf i) =
          t.paging.directory (.entry d) := by
      rw [directoryOf_initializeProcess]
      exact congrArg t.paging.directory claimed.directory
    obtain ⟨mem, hmem⟩ := exists_keeps
      (fun addr => place (initializeProcess request i (t.setCr3 s.paging.cr3)) (i, addr)) ram
    refine ⟨i, stores, mem, admitted.unused, ?_, read, hmem,
      storeClusters_self hs' claimed.pages.plain hdir hmem stores, fun st hst k hk hlow => ?_⟩
    · change t.processListUsed i = true
      rw [claimed.used, Function.update_self]
    · have hfault := storeClusters_eq_ok.mp stored st hst k hk
      rw [place, hdir]
      rcases claimed.pages.plain (upperBits (st.1 + UInt32.ofNat k)) with ⟨f, hgiven⟩ | hfresh
      · exact ⟨_, translate_given hgiven _⟩
      · -- The only page of a fresh directory is the kernel's.
        rw [storeFault, hfresh, freshDirectory, Function.update_of_ne (ne_kernelPage hlow)] at hfault
        cases hfault

theorem MachineStep.of_running {m : Machine} {i : Fin 16} {addr pa : UInt32}
    (hm : WellMapped m.kernel) (h : Running m.kernel i) (hplace : place m.kernel (i, addr) = some pa)
    (byte : UInt8) : MachineStep m (.store i addr byte) (m.put pa byte) := by
  refine .store ⟨h.used, h.loaded⟩ ?_
  rw [Machine.locate, h.loaded]
  exact (hm.plain i h.used).of_user _ rfl hplace

structure TwoProcesses (s : Kernel) (a b : Fin 16) : Prop where
  reachable : Reachable s
  distinct : a ≠ b
  used : ∀ j, s.processListUsed j = true ↔ j = a ∨ j = b
  placed : ∀ j, s.processListUsed j = true → ∃ pa, place s (j, 0) = some pa

section TwoProcesses
variable {s : Kernel} {a b : Fin 16}

theorem otherMachineStep_tick {i : Fin 16} {ctx handed : Context} {s' : Kernel}
    (h : timerTick ctx s = .ok (handed, s')) (ram : Os2024.Memory) :
    OtherMachineStep i ⟨s, ram⟩ (.kernelEvent (.tick ctx)) ⟨s', ram⟩ where
  step := .kernelEvent (congrArg (Except.map Prod.snd) h : Step s (.tick ctx) s')
  contained := trivial
  spared := by rintro event pid ⟨⟩ ⟨⟩

theorem TwoProcesses.switch (h : TwoProcesses s a b) (hstart : startSlot s = a)
    (hpid : s.currentRunningPid = noProcessRunning ∨ s.currentRunningPid = UInt32.ofNat a) :
    ∃ handed s', timerTick someContext s = .ok (handed, s') ∧ Running s' b ∧ TwoProcesses s' b a := by
  have hs := h.reachable.isolated
  obtain ⟨handed, s', htick, hrunning, hkept⟩ := tick_to_other hs h.distinct h.used hstart hpid
    someContext
  have hstep : Step s (.tick someContext) s' := congrArg (Except.map Prod.snd) htick
  refine ⟨handed, s', htick, hrunning, h.reachable.step hstep, h.distinct.symm, fun j => ?_,
    fun j hj => ?_⟩
  · rw [hkept, h.used, or_comm]
  · rw [hkept] at hj
    obtain ⟨d, hocc⟩ := hs.occupies hj
    rw [place_eq_of_occupies hocc (hocc.step hs ⟨hstep, by rintro pid ⟨⟩⟩)]
    exact h.placed j hj

theorem TwoProcesses.store (h : TwoProcesses s a b) (hrunning : Running s a) {i : Fin 16}
    (ram : Os2024.Memory) (byte : UInt8) :
    ∃ ram', OtherMachineStep i ⟨s, ram⟩ (.store a 0 byte) ⟨s, ram'⟩ := by
  obtain ⟨pa, hpa⟩ := h.placed a hrunning.used
  exact ⟨_, .of_running h.reachable.wellMapped hrunning hpa byte, trivial, by rintro event pid ⟨⟩⟩

end TwoProcesses

theorem created_note_placed {fs : Storage} (hfs : HoldsNote fs) {s s' : Kernel} (hs : WellMapped s)
    (hcreate : processCreateUserProcess fs noteProgram s = .ok (processCreateSuccess, s')) :
    ∃ i pa, s.processListUsed i = false ∧ s'.processListUsed i = true ∧
      place s' (i, 0) = some pa := by
  obtain ⟨i, stores, -, hunused, hused, hread, -, -, hplaced⟩ :=
    created_memory hs (fun _ => 0) hcreate
  obtain ⟨c, c', hnote⟩ := hfs
  obtain rfl := (Prod.mk.inj (Except.ok.inj (hread.symm.trans (hnote 0 4096 le_rfl)))).2
  have hlow : (0 : UInt32) + UInt32.ofNat 0 < kernelVirtualAddressBase := by decide
  obtain ⟨pa, hpa⟩ := hplaced (0, c) List.mem_cons_self 0 (by decide) hlow
  exact ⟨i, pa, hunused, hused, hpa⟩

theorem twoProcesses_notes {fs : Storage} (hfs : HoldsNote fs) : ∃ s₁ s₂,
    processCreateUserProcess noteStorage noteProgram kernelStart = .ok (processCreateSuccess, s₁) ∧
    processCreateUserProcess fs noteProgram s₁ = .ok (processCreateSuccess, s₂) ∧
    Reachable s₁ ∧ s₁.processListUsed 0 = true ∧ TwoProcesses s₂ 0 1 ∧
    s₂.currentRunningPid = noProcessRunning := by
  obtain ⟨s₁, s₂, hcreate, hcreate', hused, hused', hpid⟩ := create_two_notes hfs
  have hs₁ := reachable_kernelStart.step (.create hcreate)
  refine ⟨s₁, s₂, hcreate, hcreate', hs₁, (hused 0).mpr rfl, ⟨hs₁.step (.create hcreate'),
    Fin.zero_ne_one, hused', fun j hj => ?_⟩, hpid⟩
  obtain ⟨i, pa, -, hi, hpa⟩ :=
    created_note_placed noteStorage_holdsNote reachable_kernelStart.wellMapped hcreate
  obtain ⟨k, pa', hunused, hk, hpa'⟩ := created_note_placed hfs hs₁.wellMapped hcreate'
  obtain rfl := (hused i).mp hi
  rcases (hused' j).mp hj with rfl | rfl
  · obtain ⟨d, hocc⟩ := hs₁.isolated.occupies hi
    have hstep : Step s₁ (.create fs noteProgram) s₂ := .create hcreate'
    refine ⟨pa, ?_⟩
    rw [place_eq_of_occupies hocc (hocc.step hs₁.isolated ⟨hstep, by rintro pid ⟨⟩⟩), hpa]
  · obtain rfl : k = 1 := ((hused' k).mp hk).resolve_left fun hzero => by
      rw [hzero, hi] at hunused
      cases hunused
    exact ⟨pa', hpa'⟩

/-- Two processes made of the note store to the same address, one after the other. -/
theorem private_memory_note : ∃ s₁ s₂ handed s₃ handed' s₄ mem m',
    processCreateUserProcess noteStorage noteProgram kernelStart = .ok (processCreateSuccess, s₁) ∧
    processCreateUserProcess noteStorage noteProgram s₁ = .ok (processCreateSuccess, s₂) ∧
    timerTick someContext s₂ = .ok (handed, s₃) ∧ timerTick someContext s₃ = .ok (handed', s₄) ∧
    Machine.Shows ⟨s₂, fun _ => 0⟩ 0 mem ∧
    Trace (OtherMachineStep 0) ⟨s₂, fun _ => 0⟩ [.kernelEvent (.tick someContext), .store 1 0 9,
      .kernelEvent (.tick someContext), .store 0 0 5] m' ∧
    m'.kernel.processListUsed 0 = true ∧
    (∀ addr, place m'.kernel (0, addr) = place s₂ (0, addr)) ∧
    m'.Shows 0 (Function.update mem 0 5) ∧ ∃ m'' pa, MachineStep m' (.store 0 0 6) m'' ∧
      m'' = m'.put pa 6 ∧ upperBits pa ≠ 0 ∧ m'.kernel.paging.Marked (upperBits pa) := by
  obtain ⟨s₁, s₂, hcreate, hcreate', -, -, h₂, hpid⟩ := twoProcesses_notes noteStorage_holdsNote
  obtain ⟨handed, s₃, htick, hone, h₃⟩ := h₂.switch (startSlot_none hpid) (.inl hpid)
  obtain ⟨handed', s₄, htick', hzero, h₄⟩ := h₃.switch (startSlot_ofNat hone.running)
    (.inr hone.running)
  obtain ⟨mem, hmem⟩ : ∃ mem, Machine.Shows ⟨s₂, fun _ => 0⟩ 0 mem := exists_keeps _ _
  obtain ⟨ram, hstore⟩ := h₃.store hone (i := 0) (fun _ => 0) 9
  obtain ⟨ram', hstore'⟩ := h₄.store hzero (i := 0) ram 5
  obtain ⟨ram'', hnext⟩ := h₄.store hzero (i := 0) ram' 6
  have htrace : Trace (OtherMachineStep 0) ⟨s₂, fun _ => 0⟩ _ _ :=
    .cons (otherMachineStep_tick htick _) (.cons hstore
      (.cons (otherMachineStep_tick htick' ram) (.cons hstore' (.nil _))))
  obtain ⟨hused, hpages, hshows, hconfined⟩ := private_memory h₂.reachable
    ((h₂.used 0).mpr (.inl rfl)) hmem htrace
  obtain ⟨pa, hput, hframe, hmarked⟩ := hconfined hnext.step
  exact ⟨s₁, s₂, handed, s₃, handed', s₄, mem, _, hcreate, hcreate', htick, htick', hmem, htrace,
    hused, hpages, hshows, _, pa, hnext.step, hput, hframe, hmarked⟩

end Os2024.Process
