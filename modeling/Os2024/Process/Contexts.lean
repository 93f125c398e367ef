import Os2024.Process.Running

/-! # Each process resumes with its own context

Every successful creation starts an incarnation. Beside the kernel the history
keeps which incarnation lives in each slot, which one the processor executes,
and the contexts that creation and preemption have given to each. A slot holds
the context its incarnation is due, provided that no creation takes the slot
which `current_running_pid` still names.
-/

namespace Os2024.Process
open Library.Runs Memory Memory.Paging FileSystem

/-- The kernel and the history of its processes. -/
structure Tracked where
  kernel : Kernel
  born : ℕ
  alive : Fin 16 → Option ℕ
  onCpu : Option ℕ
  initial : ℕ → Context
  lastSaved : ℕ → Option Context

namespace Tracked

/-- What an incarnation is to resume with: the context of its last preemption, or the initial one
if it has never been preempted. -/
def due (t : Tracked) (p : ℕ) : Context := (t.lastSaved p).getD (t.initial p)

def withKernel (t : Tracked) (s : Kernel) : Tracked := { t with kernel := s }

def createdIn (t : Tracked) (i : Fin 16) (context : Context) (s : Kernel) : Tracked where
  kernel := s
  born := t.born + 1
  alive := Function.update t.alive i (some t.born)
  onCpu := t.onCpu
  initial := Function.update t.initial t.born context
  lastSaved := Function.update t.lastSaved t.born none

/-- The incarnation in the slot of `pid` ends. -/
def destroyedAt (t : Tracked) (pid : UInt32) (s : Kernel) : Tracked :=
  { t with
    kernel := s
    alive := fun i => if UInt32.ofNat i = pid then none else t.alive i }

def preempt (t : Tracked) (ctx : Context) : Tracked :=
  match t.onCpu with
  | none => t
  | some p => { t with lastSaved := Function.update t.lastSaved p (some ((t.due p).save ctx)) }

def switchedTo (t : Tracked) (i : Fin 16) (s : Kernel) : Tracked :=
  { t with
    kernel := s
    onCpu := t.alive i }

def start (s : Kernel) : Tracked :=
  ⟨s, 0, fun _ => none, none, fun _ => (s.processList 0).context,
  fun _ => none⟩

end Tracked

/-- The events of the kernel with their effect on the history. -/
inductive TrackedStep : Tracked → Event → Tracked → Prop where
  | created {t : Tracked} {fs : Storage} {request : DriverRequest} {i : Fin 16} {s : Kernel}
      (hi : processListGetInactiveIndex t.kernel = some i)
      (h : processCreateUserProcess fs request t.kernel = .ok (processCreateSuccess, s)) :
      TrackedStep t (.create fs request)
        (t.createdIn i (initialContext (s.directoryOf i) request.buf) s)
  | notCreated {t : Tracked} {fs : Storage} {request : DriverRequest} {code : Int32} {s : Kernel}
      (hcode : code ≠ processCreateSuccess)
      (h : processCreateUserProcess fs request t.kernel = .ok (code, s)) :
      TrackedStep t (.create fs request) (t.withKernel s)
  | destroyed {t : Tracked} {event : Event} {pid : UInt32} {s : Kernel}
      (hpid : event.victim t.kernel = some pid) (h : Step t.kernel event s) :
      TrackedStep t event (t.destroyedAt pid s)
  | ticked {t : Tracked} {ctx handed : Context} {i : Fin 16} {s : Kernel}
      (h : timerTick ctx t.kernel = .ok (handed, s)) (hi : s.currentRunningPid = UInt32.ofNat i) :
      TrackedStep t (.tick ctx) ((t.preempt ctx).switchedTo i s)

theorem TrackedStep.step {t t' : Tracked} {event : Event} (h : TrackedStep t event t') :
    Step t.kernel event t'.kernel := by
  cases h with
  | created hi h => exact .create h
  | notCreated hcode h => exact .create h
  | destroyed hpid h => exact h
  | ticked h hi => exact congrArg (Except.map Prod.snd) h

/-- Every step of the kernel can be tracked. -/
theorem Isolated.tracked {t : Tracked} {event : Event} {s : Kernel} (h : Isolated t.kernel)
    (hstep : Step t.kernel event s) : ∃ t', TrackedStep t event t' ∧ t'.kernel = s := by
  cases event with
  | create fs request =>
    obtain ⟨code, hcreate⟩ := map_snd_eq_ok hstep
    by_cases hcode : code = processCreateSuccess
    · subst code
      obtain ⟨i, d, u, stores, hi, -⟩ := h.create_success hcreate
      exact ⟨_, .created hi.slot hcreate, rfl⟩
    · exact ⟨_, .notCreated hcode hcreate, rfl⟩
  | terminate flags => exact ⟨_, .destroyed rfl hstep, rfl⟩
  | kill pid flags => exact ⟨_, .destroyed rfl hstep, rfl⟩
  | tick ctx =>
    obtain ⟨handed, htick⟩ := map_snd_eq_ok hstep
    obtain ⟨i, hi⟩ := running_tick htick
    exact ⟨_, .ticked htick hi.running, rfl⟩

/-- Each living incarnation is in a used slot that holds the context it is due, and it is the one
that executes exactly when `current_running_pid` names its slot. -/
structure Coherent (t : Tracked) : Prop where
  isolated : Isolated t.kernel
  aliveBorn : ∀ i p, t.alive i = some p → p < t.born
  onCpuBorn : ∀ p, t.onCpu = some p → p < t.born
  injective : ∀ i j p, t.alive i = some p → t.alive j = some p → i = j
  used : ∀ i p, t.alive i = some p → t.kernel.processListUsed i = true
  context : ∀ i p, t.alive i = some p → (t.kernel.processList i).context = t.due p
  executing : ∀ i p, t.alive i = some p →
    (t.kernel.currentRunningPid = UInt32.ofNat i ↔ t.onCpu = some p)

theorem Coherent.withKernel {t : Tracked} {s : Kernel} (h : Coherent t) (hs : Isolated s)
    (hused : ∀ i, t.kernel.processListUsed i = true → s.processListUsed i = true)
    (hcontext : ∀ i, t.kernel.processListUsed i = true →
      (s.processList i).context = (t.kernel.processList i).context)
    (hpid : s.currentRunningPid = t.kernel.currentRunningPid) : Coherent (t.withKernel s) where
  isolated := hs
  aliveBorn := h.aliveBorn
  onCpuBorn := h.onCpuBorn
  injective := h.injective
  used i p hi := hused i (h.used i p hi)
  context i p hi := (hcontext i (h.used i p hi)).trans (h.context i p hi)
  executing i p hi := by
    change s.currentRunningPid = _ ↔ _
    rw [hpid]
    exact h.executing i p hi

theorem Claimed.used_of_used {s t : Kernel} {i j : Fin 16} {d : Fin 32} {buf : UInt32}
    (ht : Claimed s t i d buf) (hj : s.processListUsed j = true) : t.processListUsed j = true := by
  rw [ht.used]
  by_cases hji : j = i
  · rw [hji, Function.update_self]
  · rw [Function.update_of_ne hji, hj]

theorem ne_of_used {s : Kernel} {i j : Fin 16} (hi : s.processListUsed i = false)
    (hj : s.processListUsed j = true) : j ≠ i := by
  rintro rfl
  rw [hi] at hj
  cases hj

theorem processList_initializeProcess_of_ne {request : DriverRequest} {i j : Fin 16} (s : Kernel)
    (h : j ≠ i) : (initializeProcess request i s).processList j = s.processList j :=
  processList_setPcb_of_ne _ _ _ _ h

theorem context_initializeProcess (request : DriverRequest) (i : Fin 16) (s : Kernel) :
    ((initializeProcess request i s).processList i).context =
      initialContext (s.directoryOf i) request.buf := by
  rw [initializeProcess, processList_setPcb_self]
  rfl

/-- A creation that takes the slot named by `current_running_pid` of a process that is gone. -/
def ReusesRunning (fs : Storage) (request : DriverRequest) (s : Kernel) : Prop :=
  ∃ i stores, Admitted request s i ∧ FileSystem.read request fs = .ok (0, stores) ∧
    s.currentRunningPid = UInt32.ofNat i

theorem Coherent.notCreated {t : Tracked} {fs : Storage} {request : DriverRequest} {code : Int32}
    {s : Kernel} (h : Coherent t) (hcode : code ≠ processCreateSuccess)
    (hcreate : processCreateUserProcess fs request t.kernel = .ok (code, s)) :
    Coherent (t.withKernel s) := by
  have hs := h.isolated.create hcreate
  cases h.isolated.create_outcome hcreate with
  | refused code hcode => exact h
  | unreadable i d u answer hi hu hread hanswer =>
    refine h.withKernel hs (fun j hj => hu.used_of_used hj) (fun j hj => ?_) hu.running
    exact congrArg ProcessControlBlock.context (hu.others j (ne_of_used hi.unused hj))
  | loaded i d u stores hi hu hread hstores => exact absurd rfl hcode

theorem Coherent.created {t : Tracked} {fs : Storage} {request : DriverRequest} {i : Fin 16}
    {s : Kernel} (h : Coherent t) (hslot : processListGetInactiveIndex t.kernel = some i)
    (hcreate : processCreateUserProcess fs request t.kernel = .ok (processCreateSuccess, s))
    (hguard : ¬ReusesRunning fs request t.kernel) :
    Coherent (t.createdIn i (initialContext (s.directoryOf i) request.buf) s) := by
  have hs := h.isolated.create hcreate
  obtain ⟨j, d, u, stores, hj, hu, hread, -, rfl⟩ := h.isolated.create_success hcreate
  obtain rfl : i = j := Option.some.inj (hslot.symm.trans hj.slot)
  have hnot : t.kernel.currentRunningPid ≠ UInt32.ofNat i :=
    fun hpid => hguard ⟨i, stores, hj, hread, hpid⟩
  have halive : ∀ k p, k ≠ i → Function.update t.alive i (some t.born) k = some p →
      t.alive k = some p := by
    intro k p hk hp
    rwa [Function.update_of_ne hk] at hp
  have hself : ∀ p, Function.update t.alive i (some t.born) i = some p → p = t.born := by
    intro p hp
    rw [Function.update_self] at hp
    exact (Option.some.inj hp).symm
  constructor
  case isolated => exact hs
  case aliveBorn =>
    intro k p hp
    by_cases hk : k = i
    · subst k
      rw [hself p hp]
      exact Nat.lt_succ_self _
    · exact Nat.lt_succ_of_lt (h.aliveBorn k p (halive k p hk hp))
  case onCpuBorn => exact fun p hp => Nat.lt_succ_of_lt (h.onCpuBorn p hp)
  case injective =>
    intro k l p hk hl
    by_cases hki : k = i <;> by_cases hli : l = i
    · rw [hki, hli]
    · subst k
      rw [hself p hk] at hl
      exact absurd (h.aliveBorn l _ (halive l _ hli hl)) (lt_irrefl _)
    · subst l
      rw [hself p hl] at hk
      exact absurd (h.aliveBorn k _ (halive k _ hki hk)) (lt_irrefl _)
    · exact h.injective k l p (halive k p hki hk) (halive l p hli hl)
  case used =>
    intro k p hp
    by_cases hk : k = i
    · subst k
      change u.processListUsed i = true
      rw [hu.used, Function.update_self]
    · exact hu.used_of_used (h.used k p (halive k p hk hp))
  case context =>
    intro k p hp
    by_cases hk : k = i
    · subst k
      rw [hself p hp, Tracked.due]
      simp only [Tracked.createdIn, Function.update_self, Option.getD_none]
      rw [context_initializeProcess, directoryOf_initializeProcess]
    · have hold := halive k p hk hp
      have hne : p ≠ t.born := (h.aliveBorn k p hold).ne
      rw [Tracked.due]
      simp only [Tracked.createdIn, Function.update_of_ne hne]
      rw [processList_initializeProcess_of_ne _ hk]
      exact (congrArg ProcessControlBlock.context (hu.others k hk)).trans (h.context k p hold)
  case executing =>
    intro k p hp
    change u.currentRunningPid = UInt32.ofNat k ↔ t.onCpu = some p
    rw [hu.running]
    by_cases hk : k = i
    · subst k
      rw [hself p hp]
      exact iff_of_false hnot fun hcpu => absurd (h.onCpuBorn _ hcpu) (lt_irrefl _)
    · exact h.executing k p (halive k p hk hp)

theorem Coherent.destroyed {t : Tracked} {event : Event} {pid : UInt32} {s : Kernel}
    (h : Coherent t) (hpid : event.victim t.kernel = some pid) (hstep : Step t.kernel event s) :
    Coherent (t.destroyedAt pid s) := by
  have hs := h.isolated.step hstep
  have hdestroy : ∃ flags b, processDestroy pid flags t.kernel = .ok (b, s) := by
    cases event with
    | create fs request => cases hpid
    | terminate flags =>
      obtain rfl := Option.some.inj hpid
      exact ⟨flags, map_snd_eq_ok hstep⟩
    | kill pid' flags =>
      obtain rfl := Option.some.inj hpid
      exact ⟨flags, map_snd_eq_ok hstep⟩
    | tick ctx => cases hpid
  obtain ⟨flags, b, hdestroy⟩ := hdestroy
  have halive : ∀ k p, (t.destroyedAt pid s).alive k = some p →
      UInt32.ofNat k ≠ pid ∧ t.alive k = some p := by
    intro k p hp
    by_cases hk : UInt32.ofNat k = pid
    · rw [Tracked.destroyedAt] at hp
      dsimp only at hp
      rw [if_pos hk] at hp
      cases hp
    · rw [Tracked.destroyedAt] at hp
      dsimp only at hp
      rw [if_neg hk] at hp
      exact ⟨hk, hp⟩
  -- The slots of the other processes are left alone.
  have hkept : ∀ k : Fin 16, UInt32.ofNat k ≠ pid → s.processListUsed k = t.kernel.processListUsed k ∧
      s.processList k = t.kernel.processList k := by
    intro k hk
    rcases h.isolated.destroy_cases hdestroy with ⟨-, rfl⟩ | ⟨j, hj, hd⟩
    · exact ⟨rfl, rfl⟩
    · have hkj : k ≠ j := by
        rintro rfl
        exact hk (UInt32.toNat_inj.mp ((ofNat_slot_toNat k).trans hj.symm))
      rw [hd.used, hd.processes, Function.update_of_ne hkj, Function.update_of_ne hkj]
      exact ⟨rfl, rfl⟩
  have hrunning : s.currentRunningPid = t.kernel.currentRunningPid := by
    rcases h.isolated.destroy_cases hdestroy with ⟨-, rfl⟩ | ⟨j, -, hd⟩
    · rfl
    · exact hd.running
  constructor
  case isolated => exact hs
  case aliveBorn => exact fun k p hp => h.aliveBorn k p (halive k p hp).2
  case onCpuBorn => exact h.onCpuBorn
  case injective => exact fun k l p hk hl => h.injective k l p (halive k p hk).2 (halive l p hl).2
  case used =>
    intro k p hp
    obtain ⟨hk, hold⟩ := halive k p hp
    exact (hkept k hk).1.trans (h.used k p hold)
  case context =>
    intro k p hp
    obtain ⟨hk, hold⟩ := halive k p hp
    exact (congrArg ProcessControlBlock.context (hkept k hk).2).trans (h.context k p hold)
  case executing =>
    intro k p hp
    obtain ⟨-, hold⟩ := halive k p hp
    change s.currentRunningPid = _ ↔ _
    rw [hrunning]
    exact h.executing k p hold

section Preempt
variable (t : Tracked) (ctx : Context)

@[simp] theorem alive_preempt : (t.preempt ctx).alive = t.alive := by
  rw [Tracked.preempt]
  split <;> rfl

@[simp] theorem born_preempt : (t.preempt ctx).born = t.born := by
  rw [Tracked.preempt]
  split <;> rfl

theorem due_preempt (p : ℕ) : (t.preempt ctx).due p =
    if t.onCpu = some p then (t.due p).save ctx else t.due p := by
  rw [Tracked.preempt]
  cases hcpu : t.onCpu with
  | none => rfl
  | some q =>
    by_cases hpq : q = p
    · subst q
      rw [if_pos rfl, Tracked.due]
      simp only [Function.update_self, Option.getD_some]
    · rw [if_neg fun h => hpq (Option.some.inj h), Tracked.due, Tracked.due]
      simp only [Function.update_of_ne (Ne.symm hpq)]

end Preempt

theorem Coherent.saved {t : Tracked} {ctx : Context} {u : Kernel} (h : Coherent t)
    (hsaved : Saved ctx t.kernel u) {i : Fin 16} {p : ℕ} (hp : t.alive i = some p) :
    (u.processList i).context = (t.preempt ctx).due p := by
  rw [due_preempt]
  cases hsaved with
  | nothing hnone =>
    have hcpu : t.onCpu ≠ some p := by
      rw [ne_eq, ← h.executing i p hp, hnone]
      exact (ofNat_slot_ne i).symm
    rw [if_neg hcpu]
    exact h.context i p hp
  | slot j hj =>
    have hiff : t.onCpu = some p ↔ i = j := by
      rw [← h.executing i p hp, hj, ← UInt32.toNat_inj, ofNat_slot_toNat, ofNat_slot_toNat,
        Fin.ext_iff, eq_comm]
    by_cases hij : i = j
    · subst j
      rw [if_pos (hiff.mpr rfl), context_saveTo_self, h.context i p hp]
    · rw [if_neg fun hcpu => hij (hiff.mp hcpu), processList_saveTo_of_ne _ _ _ _ hij]
      exact h.context i p hp

theorem Coherent.ticked {t : Tracked} {ctx handed : Context} {i : Fin 16} {s : Kernel}
    (h : Coherent t) (htick : timerTick ctx t.kernel = .ok (handed, s))
    (hi : s.currentRunningPid = UInt32.ofNat i) :
    Coherent ((t.preempt ctx).switchedTo i s) := by
  have hs := h.isolated.tick htick
  obtain ⟨u, j, hsaved, -, -, -, rfl⟩ := timerTick_outcome htick
  have halive : ((t.preempt ctx).switchedTo i (switchTo j u)).alive = t.alive := alive_preempt t ctx
  constructor
  case isolated => exact hs
  case aliveBorn =>
    intro k p hp
    rw [halive] at hp
    exact (h.aliveBorn k p hp).trans_eq (born_preempt t ctx).symm
  case onCpuBorn =>
    intro p hp
    have hold : t.alive i = some p := (congrFun (alive_preempt t ctx) i).symm.trans hp
    exact (h.aliveBorn i p hold).trans_eq (born_preempt t ctx).symm
  case injective =>
    rw [halive]
    exact h.injective
  case used =>
    intro k p hp
    rw [halive] at hp
    change u.processListUsed k = true
    rw [hsaved.used]
    exact h.used k p hp
  case context =>
    intro k p hp
    rw [halive] at hp
    exact (context_switchTo j k u).trans (h.saved hsaved hp)
  case executing =>
    intro k p hp
    rw [halive] at hp
    have hcpu : ((t.preempt ctx).switchedTo i (switchTo j u)).onCpu = t.alive i :=
      congrFun (alive_preempt t ctx) i
    change (switchTo j u).currentRunningPid = _ ↔ _
    rw [hcpu, hi]
    constructor
    · intro heq
      obtain rfl : i = k := Fin.ext (by rw [← ofNat_slot_toNat i, heq, ofNat_slot_toNat])
      exact hp
    · intro hik
      rw [h.injective i k p hik hp]

def GuardedTrackedStep (t : Tracked) (event : Event) (t' : Tracked) : Prop :=
  TrackedStep t event t' ∧
    ∀ fs request, event = .create fs request → ¬ReusesRunning fs request t.kernel

/-- The step lemma. -/
theorem Coherent.step {t t' : Tracked} {event : Event} (h : Coherent t)
    (hstep : GuardedTrackedStep t event t') : Coherent t' := by
  obtain ⟨htracked, hguard⟩ := hstep
  cases htracked with
  | created hi hcreate => exact h.created hi hcreate (hguard _ _ rfl)
  | notCreated hcode hcreate => exact h.notCreated hcode hcreate
  | destroyed hpid hdestroy => exact h.destroyed hpid hdestroy
  | ticked htick hi => exact h.ticked htick hi

theorem coherent_start : Coherent (Tracked.start kernelStart) where
  isolated := kernelStart_isolated
  aliveBorn _ _ h := by cases h
  onCpuBorn _ h := by cases h
  injective _ _ _ h := by cases h
  used _ _ h := by cases h
  context _ _ h := by cases h
  executing _ _ h := by cases h

/-- Only its own preemption changes what an incarnation is due. -/
theorem TrackedStep.due_eq {t t' : Tracked} {event : Event} (h : TrackedStep t event t') {p : ℕ}
    (hp : p < t.born) : t'.due p = t.due p ∨ ∃ ctx, event = .tick ctx ∧ t.onCpu = some p := by
  cases h with
  | created hi hcreate =>
    refine .inl ?_
    rw [Tracked.due]
    simp only [Tracked.createdIn, Function.update_of_ne hp.ne]
    rfl
  | notCreated hcode hcreate => exact .inl rfl
  | destroyed hpid hdestroy => exact .inl rfl
  | @ticked ctx handed i s htick hi =>
    by_cases hcpu : t.onCpu = some p
    · exact .inr ⟨ctx, rfl, hcpu⟩
    · refine .inl ((due_preempt t ctx p).trans ?_)
      rw [if_neg hcpu]

/-- Unless a creation takes the slot of a running process that is gone, every process is handed its
initial context or the one of its last preemption, and no other process ever writes it. -/
theorem guardedRun_contexts {s₀ : Kernel} (h₀ : allocateFirstPage initialKernel = .ok s₀)
    {t : Tracked} (hrun : Run GuardedTrackedStep (Tracked.start s₀) t) :
    (∀ ctx handed s (i : Fin 16) p, timerTick ctx t.kernel = .ok (handed, s) →
      s.currentRunningPid = UInt32.ofNat i → t.alive i = some p →
      handed = (t.preempt ctx).due p) ∧
    ∀ event t', GuardedTrackedStep t event t' → ∀ i p, t.alive i = some p → t'.alive i = some p →
      (t'.kernel.processList i).context = (t.kernel.processList i).context ∨
        ∃ ctx, event = .tick ctx ∧ t.onCpu = some p := by
  obtain rfl := Except.ok.inj (allocateFirstPage_eq.symm.trans h₀)
  have h : Coherent t := hrun.invariant coherent_start fun _ _ _ ht hstep => ht.step hstep
  refine ⟨fun ctx handed s i p htick hi hp => ?_, fun event t' hstep i p hp hp' => ?_⟩
  · obtain ⟨u, j, hsaved, -, -, rfl, rfl⟩ := timerTick_outcome htick
    obtain rfl : j = i := Fin.ext (by
      rw [← ofNat_slot_toNat j, ← ofNat_slot_toNat i]
      exact congrArg UInt32.toNat hi)
    exact h.saved hsaved hp
  · rw [(h.step hstep).context i p hp', h.context i p hp]
    exact hstep.1.due_eq (h.aliveBorn i p hp)

theorem guardedRun_contexts_note : ∃ s₁ handed s₂,
    processCreateUserProcess noteStorage noteProgram kernelStart = .ok (processCreateSuccess, s₁) ∧
    timerTick someContext s₁ = .ok (handed, s₂) ∧
    handed = initialContext (s₁.directoryOf 0) noteProgram.buf := by
  obtain ⟨s₁, handed, s₂, -, hcreate, htick, -, hrunning, -⟩ :=
    terminate_note someContext (fun _ => userFlag)
  have hguard : ¬ReusesRunning noteStorage noteProgram kernelStart := by
    rintro ⟨i, -, -, -, hpid⟩
    exact ofNat_slot_ne i hpid.symm
  have htracked := TrackedStep.created (t := Tracked.start kernelStart) (i := 0) rfl hcreate
  have hrun : Run GuardedTrackedStep (Tracked.start kernelStart) _ := (Run.refl _).tail
    ⟨htracked, by
      rintro _ _ ⟨⟩
      exact hguard⟩
  have hhanded := (guardedRun_contexts allocateFirstPage_eq hrun).1 someContext handed s₂ 0 0 htick
    hrunning.running rfl
  exact ⟨s₁, handed, s₂, hcreate, htick, hhanded⟩

/-- A process terminates itself and the next one is created in its slot before the timer fires: the
timer saves the registers of the old process there, and the new one starts with them. -/
theorem reused_slot_loses_context : ∃ t₁ t₂ t₃ t₄ handed s,
    TrackedStep (Tracked.start kernelStart) (.create noteStorage noteProgram) t₁ ∧
    TrackedStep t₁ (.tick someContext) t₂ ∧
    TrackedStep t₂ (.terminate fun _ => userFlag) t₃ ∧
    TrackedStep t₃ (.create noteStorage noteProgram) t₄ ∧
    timerTick someContext t₄.kernel = .ok (handed, s) ∧ s.currentRunningPid = 0 ∧
    t₄.alive 0 = some 1 ∧ t₄.lastSaved 1 = none ∧ t₄.onCpu = some 0 ∧
    handed ≠ (t₄.preempt someContext).due 1 := by
  obtain ⟨s₁, handed, s₂, s₃, hcreate, htick, hdestroy, hrunning, hd, hidle, hcount, hframes⟩ :=
    terminate_note someContext (fun _ => userFlag)
  have hs₃ : Isolated s₃ := ((kernelStart_isolated.create hcreate).tick htick).destroy hdestroy
  have hslot : processListGetInactiveIndex s₃ = some 0 := by
    rw [processListGetInactiveIndex, funext hidle]
    rfl
  obtain ⟨d, u, hu, hcreate'⟩ := create_note hs₃ (by rw [hcount]; decide) hslot hframes
  have hs₄ := hs₃.create hcreate'
  have hused : ∀ j, u.processListUsed j = true ↔ j = 0 := by
    intro j
    rw [hu.used]
    by_cases hj : j = 0
    · subst j
      exact iff_of_true (Function.update_self ..) rfl
    · rw [Function.update_of_ne hj, hidle j]
      exact iff_of_false (by rintro ⟨⟩) hj
  have hpid : (initializeProcess noteProgram 0 (u.setCr3 s₃.paging.cr3)).currentRunningPid =
      UInt32.ofNat (0 : Fin 16) := (hu.running.trans hd.running).trans hrunning.running
  have hsave := save_eq someContext hpid
  obtain ⟨handed', s₅, htick'⟩ := timerTick_returns hs₄ ((hused 0).mpr rfl) hsave
  have hhanded : handed'.eip = someContext.eip ∧ s₅.currentRunningPid = 0 := by
    obtain ⟨v, j, hsaved, hj, -, rfl, rfl⟩ := timerTick_outcome htick'
    cases hsaved with
    | nothing hnone => exact absurd (hpid.symm.trans hnone) (ofNat_slot_ne 0)
    | slot k hk =>
      obtain rfl : k = 0 := Fin.ext (by rw [← ofNat_slot_toNat k, ← hk, hpid, ofNat_slot_toNat])
      obtain rfl := (hused j).mp hj
      rw [context_saveTo_self]
      exact ⟨rfl, rfl⟩
  let t₁ := (Tracked.start kernelStart).createdIn 0 (initialContext (s₁.directoryOf 0) 0) s₁
  let t₂ := (t₁.preempt someContext).switchedTo 0 s₂
  let t₃ := t₂.destroyedAt s₂.currentRunningPid s₃
  have htracked₁ : TrackedStep (Tracked.start kernelStart) (.create noteStorage noteProgram) t₁ :=
    .created rfl hcreate
  have htracked₂ : TrackedStep t₁ (.tick someContext) t₂ := .ticked htick hrunning.running
  have htracked₃ : TrackedStep t₂ (.terminate fun _ => userFlag) t₃ :=
    .destroyed rfl (.terminate hdestroy)
  have htracked₄ := TrackedStep.created (t := t₃) hslot hcreate'
  refine ⟨t₁, t₂, t₃, _, handed', s₅, htracked₁, htracked₂, htracked₃, htracked₄, htick', hhanded.2,
    rfl, rfl, rfl, fun heq => ?_⟩
  have heip : (0 : UInt32) = someContext.eip := (congrArg Context.eip heq).symm.trans hhanded.1
  exact absurd heip (by decide)

end Os2024.Process
