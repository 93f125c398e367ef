import Os2024.Process.Isolation

/-! # The running process is live

A timer interrupt leaves `current_running_pid` at a used slot and CR3 at its
directory. A creation takes another slot and restores CR3, and a destruction of
another process touches neither. Only the destruction of the running process
itself leaves the processor on a directory that has been given back.
-/

namespace Os2024.Process
open Library.Runs Memory Memory.Paging FileSystem

/-- Slot `i` is used, `current_running_pid` names it and its directory is loaded. -/
structure Running (s : Kernel) (i : Fin 16) : Prop where
  running : s.currentRunningPid = UInt32.ofNat i
  used : s.processListUsed i = true
  loaded : s.paging.cr3 = s.directoryOf i

/-- The running process is live: its directory is in use and maps the kernel, and the search of
the next timer interrupt ends. -/
structure Live (s : Kernel) (i : Fin 16) : Prop extends Running s i where
  directory : ∃ d, s.directoryOf i = .entry d ∧ s.paging.pageDirectoryUsed d = true
  kernelMapped : s.paging.directory (s.directoryOf i) 0x300 = kernelEntry
  search : ∃ j, findNextUsed s.processListUsed 16 s.currentRunningPid = some j
  tick : ∀ ctx, ∃ handed s', timerTick ctx s = .ok (handed, s')

theorem timerTick_returns {s : Kernel} (h : Isolated s) {j : Fin 16}
    (hused : s.processListUsed j = true) {t : Kernel} {ctx : Context}
    (hsave : schedulerSaveContextToCurrentRunningPcb ctx s = .ok t) :
    ∃ handed s', timerTick ctx s = .ok (handed, s') := by
  have hsaved := save_outcome hsave
  have hused' : t.processListUsed j = true := by rw [hsaved.used, hused]
  obtain ⟨i, hi⟩ := findNextUsed_isSome hused'
    (if t.currentRunningPid = noProcessRunning then 0 else t.currentRunningPid)
  have hnull : (t.processList i).context.pageDirectoryVirtualAddr ≠ .null := by
    have hi' := findNextUsed_used hi
    rw [hsaved.used] at hi'
    obtain ⟨d, hd, -⟩ := h.slotDirectory i hi'
    have hdir := (hsaved.directoryOf i).trans hd
    rw [Kernel.directoryOf] at hdir
    rw [hdir]
    rintro ⟨⟩
  rw [timerTick, hsave]
  dsimp only
  rw [schedulerSwitchToNextProcess]
  dsimp only
  rw [hi]
  dsimp only
  rw [pagingUsePageDirectory, if_neg hnull]
  exact ⟨_, _, rfl⟩

theorem Running.live {s : Kernel} {i : Fin 16} (h : Running s i) (hs : Isolated s) : Live s i := by
  obtain ⟨d, hd, hused⟩ := hs.slotDirectory i h.used
  exact
    { toRunning := h
      directory := ⟨d, hd, hused⟩
      kernelMapped := hs.kernelMapped _ (by rw [hd]; exact hused)
      search := findNextUsed_isSome h.used _
      tick := fun ctx => timerTick_returns hs h.used (save_eq ctx h.running) }

theorem running_tick {s s' : Kernel} {ctx handed : Context}
    (h : timerTick ctx s = .ok (handed, s')) : ∃ i, Running s' i := by
  obtain ⟨t, i, -, hused, -, -, rfl⟩ := timerTick_outcome h
  exact ⟨i, rfl, hused, (directoryOf_switchTo i i t).symm⟩

theorem Running.claimed {s t : Kernel} {i j : Fin 16} {d : Fin 32} {buf : UInt32}
    (h : Running s i) (hj : s.processListUsed j = false) (ht : Claimed s t j d buf) :
    Running (t.setCr3 s.paging.cr3) i := by
  have hne : i ≠ j := by
    rintro rfl
    have hused := h.used
    rw [hj] at hused
    cases hused
  have hused : t.processListUsed i = true := by
    rw [ht.used, Function.update_of_ne hne, h.used]
  have hdir : t.directoryOf i = s.directoryOf i := by
    rw [Kernel.directoryOf, ht.others i hne, Kernel.directoryOf]
  exact ⟨ht.running.trans h.running, hused, h.loaded.trans hdir.symm⟩

theorem Running.create {s s' : Kernel} {i : Fin 16} {fs : Storage} {request : DriverRequest}
    {code : Int32} (h : Running s i) (hcreate : CreateOutcome fs request s code s') :
    Running s' i := by
  cases hcreate with
  | refused code hcode => exact h
  | unreadable j d t answer hj ht hread hcode => exact h.claimed hj.unused ht
  | loaded j d t stores hj ht hread hstores =>
    have hclaimed := h.claimed hj.unused ht
    exact ⟨hclaimed.running, hclaimed.used,
      hclaimed.loaded.trans (directoryOf_initializeProcess request j i _).symm⟩

theorem Running.destroyed {s s' : Kernel} {i j : Fin 16} (h : Running s i) (hne : i ≠ j)
    (hd : Destroyed s s' j) : Running s' i := by
  have hused : s'.processListUsed i = true := by
    rw [hd.used, Function.update_of_ne hne, h.used]
  have hdir : s'.directoryOf i = s.directoryOf i := by
    rw [Kernel.directoryOf, hd.processes, Function.update_of_ne hne, Kernel.directoryOf]
  exact ⟨hd.running.trans h.running, hused, hd.cr3.trans (h.loaded.trans hdir.symm)⟩

/-- Destroying a process that is not running keeps the running one, and destroying that one
clears its slot. -/
theorem Running.destroy {s s' : Kernel} {i : Fin 16} {pid : UInt32}
    {flags : Fin 8 → PageDirectoryEntryFlag} {b : Bool} (h : Running s i) (hs : Isolated s)
    (hdestroy : processDestroy pid flags s = .ok (b, s')) :
    (∃ j, Live s' j) ↔ pid ≠ s.currentRunningPid := by
  rw [h.running]
  have hs' := hs.destroy hdestroy
  rcases hs.destroy_cases hdestroy with ⟨hpid, rfl⟩ | ⟨j, hpid, hd⟩
  · apply iff_of_true ⟨i, h.live hs'⟩
    rintro rfl
    rw [ofNat_slot_toNat] at hpid
    exact hpid i.isLt
  · have hiff : pid = UInt32.ofNat i ↔ i = j := by
      rw [← UInt32.toNat_inj, hpid, ofNat_slot_toNat, Fin.ext_iff, eq_comm]
    rw [ne_eq, hiff]
    constructor
    · rintro ⟨k, hk⟩ rfl
      have hpids := hk.running.symm.trans (hd.running.trans h.running)
      have hki : k = i := by
        rw [← UInt32.toNat_inj, ofNat_slot_toNat, ofNat_slot_toNat] at hpids
        exact Fin.ext hpids
      have hused := hk.used
      rw [hki, hd.used, Function.update_self] at hused
      cases hused
    · exact fun hne => ⟨i, (h.destroyed hne hd).live hs'⟩

def SparingStep (s : Kernel) (event : Event) (s' : Kernel) : Prop :=
  Step s event s' ∧ event.victim s ≠ some s.currentRunningPid

theorem Running.step_iff {s s' : Kernel} {i : Fin 16} {event : Event} (h : Running s i)
    (hs : Isolated s) (hstep : Step s event s') :
    (∃ j, Live s' j) ↔ event.victim s ≠ some s.currentRunningPid := by
  have hs' := hs.step hstep
  cases event with
  | create fs request =>
    obtain ⟨code, hcreate⟩ := map_snd_eq_ok hstep
    exact iff_of_true ⟨i, (h.create (hs.create_outcome hcreate)).live hs'⟩ (by rintro ⟨⟩)
  | terminate flags =>
    obtain ⟨b, hdestroy⟩ := map_snd_eq_ok hstep
    rw [h.destroy hs hdestroy, Event.victim, ne_eq, ne_eq, Option.some.injEq]
  | kill pid flags =>
    obtain ⟨b, hdestroy⟩ := map_snd_eq_ok hstep
    rw [h.destroy hs hdestroy, Event.victim, ne_eq, ne_eq, Option.some.injEq]
  | tick ctx =>
    obtain ⟨handed, htick⟩ := map_snd_eq_ok hstep
    obtain ⟨j, hj⟩ := running_tick htick
    exact iff_of_true ⟨j, hj.live hs'⟩ (by rintro ⟨⟩)

/-- After a timer interrupt, every state of a run is live as long as no step destroys the running
process, and the first step that does leads to a state that is not. -/
theorem sparingRun_live {s s₁ s₂ : Kernel} {ctx handed : Context} (hs : Reachable s)
    (htick : timerTick ctx s = .ok (handed, s₁)) (hrun : Run SparingStep s₁ s₂) :
    (∃ i, Live s₂ i) ∧ ∀ event s₃, Step s₂ event s₃ →
      ((∃ i, Live s₃ i) ↔ event.victim s₂ ≠ some s₂.currentRunningPid) := by
  have hs₁ : Isolated s₁ := hs.isolated.tick htick
  obtain ⟨i, hi⟩ := running_tick htick
  obtain ⟨hs₂, j, hj⟩ : Isolated s₂ ∧ ∃ j, Live s₂ j :=
    hrun.invariant (I := fun s => Isolated s ∧ ∃ j, Live s j) ⟨hs₁, i, hi.live hs₁⟩
      fun t event t' ht hstep =>
        ⟨ht.1.step hstep.1, ht.2.elim fun j hj => (hj.step_iff ht.1 hstep.1).mpr hstep.2⟩
  exact ⟨⟨j, hj⟩, fun event s₃ hstep => hj.step_iff hs₂ hstep⟩

def someContext : Context := ⟨{ CPURegister.zero with eax := 7 }, 0x1234, 0x202, .null⟩

theorem terminate_note (ctx : Context) (flags : Fin 8 → PageDirectoryEntryFlag) :
    ∃ s₁ handed s₂ s₃, processCreateUserProcess noteStorage noteProgram kernelStart =
        .ok (processCreateSuccess, s₁) ∧
      timerTick ctx s₁ = .ok (handed, s₂) ∧
      processDestroy s₂.currentRunningPid flags s₂ = .ok (true, s₃) ∧
      Running s₂ 0 ∧ Destroyed s₂ s₃ 0 ∧ (∀ j, s₃.processListUsed j = false) ∧
      s₃.activeProcessCount = 0 ∧ 0 < s₃.paging.allocatable := by
  obtain ⟨d, t, ht, hcreate⟩ := create_note kernelStart_isolated (i := 0) (by decide) rfl (by decide)
  have hs₁ := kernelStart_isolated.create hcreate
  have hused : ∀ j, (initializeProcess noteProgram 0
      (t.setCr3 kernelStart.paging.cr3)).processListUsed j = true ↔ j = 0 := by
    intro j
    change t.processListUsed j = true ↔ j = 0
    rw [ht.used]
    by_cases hj : j = 0
    · subst j
      exact iff_of_true (Function.update_self ..) rfl
    · rw [Function.update_of_ne hj]
      exact iff_of_false (by rintro ⟨⟩) hj
  have hsave : schedulerSaveContextToCurrentRunningPcb ctx
      (initializeProcess noteProgram 0 (t.setCr3 kernelStart.paging.cr3)) = .ok _ :=
    if_pos ht.running
  obtain ⟨handed, s₂, htick⟩ := timerTick_returns hs₁ ((hused 0).mpr rfl) hsave
  obtain ⟨u, i, hsaved, hi, -, -, rfl⟩ := timerTick_outcome htick
  rw [hsaved.used] at hi
  obtain rfl := (hused i).mp hi
  have hrunning : Running (switchTo 0 u) 0 :=
    ⟨rfl, hsaved.used ▸ hi, (directoryOf_switchTo 0 0 u).symm⟩
  have hpid : (0 : UInt32).toNat = (0 : Fin 16) := rfl
  obtain ⟨s₃, hdestroy, hd⟩ := processDestroy_eq (hs₁.tick htick).frames hpid
    ((hs₁.tick htick).owns 0) flags
  have hcount : u.activeProcessCount = 1 := by
    cases hsaved with
    | nothing _ => exact ht.count
    | slot j hj => exact absurd (ht.running.symm.trans hj).symm (ofNat_slot_ne j)
  refine ⟨_, handed, _, s₃, hcreate, htick, hdestroy, hrunning, hd, fun j => ?_, ?_, ?_⟩
  · by_cases hj : j = 0
    · subst j
      rw [hd.used, Function.update_self]
    · rw [hd.used, Function.update_of_ne hj]
      have hidle := fun h => hj ((hused j).mp h)
      rw [← hsaved.used] at hidle
      exact Bool.eq_false_of_not_eq_true hidle
  · rw [hd.count]
    change u.activeProcessCount - 1 = 0
    rw [hcount]
    rfl
  · refine lt_of_lt_of_le ?_ hd.allocatable
    change 0 < u.paging.allocatable
    rw [hsaved.paging]
    change 0 < t.paging.allocatable
    rw [ht.pages.allocatable_eq]
    decide

theorem sparingRun_live_note : ∃ s₁ handed s₂ s₃,
    processCreateUserProcess noteStorage noteProgram kernelStart = .ok (processCreateSuccess, s₁) ∧
    timerTick someContext s₁ = .ok (handed, s₂) ∧
    processDestroy 5 (fun _ => userFlag) s₂ = .ok (true, s₃) ∧ ∃ i, Live s₃ i := by
  obtain ⟨s₁, handed, s₂, -, hcreate, htick, -, hrunning, -⟩ :=
    terminate_note someContext (fun _ => userFlag)
  have hs₁ : Reachable s₁ := reachable_kernelStart.step (.create hcreate)
  have hs₂ := hs₁.isolated.tick htick
  have hpid : (5 : UInt32).toNat = (5 : Fin 16) := rfl
  obtain ⟨s₃, hkill, -⟩ := processDestroy_eq hs₂.frames hpid (hs₂.owns 5) (fun _ => userFlag)
  have hstep : SparingStep s₂ (.kill 5 fun _ => userFlag) s₃ := by
    refine ⟨.kill hkill, fun hvictim => ?_⟩
    have hsame := Option.some.inj hvictim
    rw [hrunning.running] at hsame
    exact absurd hsame (by decide)
  exact ⟨s₁, handed, s₂, s₃, hcreate, htick, hkill,
    (sparingRun_live hs₁ htick ((Run.refl s₂).tail hstep)).1⟩

/-- After a process has terminated itself, `current_running_pid` names an unused slot, CR3 holds a
directory that is not in use, and the next timer interrupt never returns. -/
theorem terminate_leaves_no_process : ∃ s₁ handed s₂ s₃ d,
    processCreateUserProcess noteStorage noteProgram kernelStart = .ok (processCreateSuccess, s₁) ∧
    timerTick someContext s₁ = .ok (handed, s₂) ∧
    Step s₂ (.terminate fun _ => userFlag) s₃ ∧
    s₃.currentRunningPid = 0 ∧ s₃.processListUsed 0 = false ∧
    s₃.paging.cr3 = .entry d ∧ s₃.paging.pageDirectoryUsed d = false ∧
    ∀ ctx, timerTick ctx s₃ = .error .diverges := by
  obtain ⟨s₁, handed, s₂, s₃, hcreate, htick, hdestroy, hrunning, hd, hidle, -⟩ :=
    terminate_note someContext (fun _ => userFlag)
  have hs₂ : Isolated s₂ := (kernelStart_isolated.create hcreate).tick htick
  obtain ⟨d, hdir, -⟩ := hs₂.slotDirectory 0 hrunning.used
  have hcr3 : s₃.paging.cr3 = .entry d := by rw [hd.cr3, hrunning.loaded, hdir]
  have hunused : ¬s₃.paging.InUse (.entry d) := fun h => ((hd.inUse _).mp h).2 hdir.symm
  have hpid : s₃.currentRunningPid = UInt32.ofNat (0 : Fin 16) := hd.running.trans hrunning.running
  refine ⟨s₁, handed, s₂, s₃, d, hcreate, htick, .terminate hdestroy, hpid, hidle 0,
    hcr3, Bool.eq_false_of_not_eq_true hunused, fun ctx => ?_⟩
  rw [timerTick, save_eq ctx hpid]
  dsimp only
  rw [schedulerSwitchToNextProcess]
  dsimp only
  have hidle' : ∀ j, (saveTo ctx 0 s₃).processListUsed j = false := hidle
  rw [findNextUsed_idle hidle']

end Os2024.Process
