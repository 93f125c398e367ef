import Os2024.Interrupts.Handlers

/-! # The flags of the programs

The flags of a program are those of its context. They start with interrupts enabled,
unless the executable of the program could not be read: then the slot of the process
is claimed all the same, with the flags that were in it.
-/

namespace Os2024.Interrupts
open Process FileSystem

/-- Interrupts are disabled, and programs may not change that. -/
def Frozen (eflags : UInt32) : Prop :=
  eflags &&& (cpuEflagsFlagInterruptEnable ||| cpuEflagsFlagIoPrivilege) = 0

/-- The program can be preempted, or it is frozen where that may happen. -/
def FlagsOk (frozen : Prop) (eflags : UInt32) : Prop := Preemptible eflags ∨ frozen ∧ Frozen eflags

theorem flagsOk_zero {frozen : Prop} (h : frozen) : FlagsOk frozen 0 := .inr ⟨h, rfl⟩

section Flags
variable {frozen : Prop} {eflags eflags' : UInt32}

/-- Either way the I/O privilege level is 0. -/
theorem FlagsOk.level (h : FlagsOk frozen eflags) : eflags &&& cpuEflagsFlagIoPrivilege = 0 := by
  have hmask : cpuEflagsFlagIoPrivilege =
    (cpuEflagsFlagInterruptEnable ||| cpuEflagsFlagIoPrivilege) &&& cpuEflagsFlagIoPrivilege := rfl
  rw [hmask, ← UInt32.and_assoc]
  rcases h with h | ⟨-, h⟩
  · rw [h]
    rfl
  · rw [h]
    rfl

theorem FlagsOk.of_instruction (h : FlagsOk frozen eflags)
    (hflags : eflags &&& cpuEflagsFlagIoPrivilege = 0 →
      eflags' &&& (cpuEflagsFlagInterruptEnable ||| cpuEflagsFlagIoPrivilege) =
        eflags &&& (cpuEflagsFlagInterruptEnable ||| cpuEflagsFlagIoPrivilege)) :
    FlagsOk frozen eflags' := by
  have hsame := hflags h.level
  rcases h with h | ⟨hfrozen, h⟩
  · exact .inl (hsame.trans h)
  · exact .inr ⟨hfrozen, hsame.trans h⟩

theorem Frozen.not_enabled (h : Frozen eflags) : eflags &&& cpuEflagsFlagInterruptEnable = 0 := by
  have hmask : cpuEflagsFlagInterruptEnable =
    (cpuEflagsFlagInterruptEnable ||| cpuEflagsFlagIoPrivilege) &&& cpuEflagsFlagInterruptEnable := rfl
  rw [hmask, ← UInt32.and_assoc, h]
  rfl

theorem FlagsOk.preemptible (h : FlagsOk frozen eflags)
    (henabled : eflags &&& cpuEflagsFlagInterruptEnable ≠ 0) : Preemptible eflags :=
  h.resolve_right fun hfrozen => henabled hfrozen.2.not_enabled

end Flags

/-- A reachable state of the processes with such flags. -/
structure Sound (frozen : Prop) (s : Kernel) : Prop where
  reachable : Reachable s
  flags : ∀ i, s.processListUsed i = true ∨ frozen → FlagsOk frozen (s.processList i).context.eflags

theorem kernelStart_sound (frozen : Prop) : Sound frozen kernelStart := by
  refine ⟨reachable_kernelStart, fun i hi => ?_⟩
  rcases hi with hi | hfrozen
  · cases hi
  · exact flagsOk_zero hfrozen

/-- The creation of a process whose executable cannot be read. It keeps the slot it has claimed. -/
def FailsToLoad (event : Process.Event) (s : Kernel) : Prop :=
  ∃ fs request s', event = .create fs request ∧
    processCreateUserProcess fs request s = .ok (processCreateFailFsReadFailure, s')

theorem context_processAllocatePageFrame {s s' : Kernel} {i : Fin 16} {virtualAddr : UInt32}
    (h : processAllocatePageFrame i virtualAddr s = .ok s') (j : Fin 16) :
    (s'.processList j).context = (s.processList j).context := by
  rw [processAllocatePageFrame] at h
  dsimp only at h
  split at h
  · rw [Except.ok.inj h]
  split at h
  · rw [Except.ok.inj h]
  · split at h
    · cases h
    · rw [← Except.ok.inj h]
      dsimp only
      by_cases hij : j = i
      · subst hij
        rw [processList_setPcb_self]
      · rw [processList_setPcb_of_ne _ _ _ _ hij]

/-- A claim does not touch the flags of the slot. -/
theorem eflags_claimSlot {request : DriverRequest} {s s' : Kernel} {i : Fin 16}
    (h : claimSlot request i s = .ok s') (j : Fin 16) :
    (s'.processList j).context.eflags = (s.processList j).context.eflags := by
  rw [claimSlot] at h
  dsimp only at h
  split at h
  · cases h
  split at h
  · cases h
  next t ht =>
    rw [context_processAllocatePageFrame h, context_processAllocatePageFrame ht, openSlot]
    by_cases hij : j = i
    · subst hij
      rw [processList_setPcb_self]
    · rw [processList_setPcb_of_ne _ _ _ _ hij]

/-- Nor does the rest of a creation whose executable cannot be read. -/
theorem eflags_create_unreadable {fs : Storage} {request : DriverRequest} {s s' : Kernel}
    (h : processCreateUserProcess fs request s = .ok (processCreateFailFsReadFailure, s'))
    (j : Fin 16) : (s'.processList j).context.eflags = (s.processList j).context.eflags := by
  rw [processCreateUserProcess] at h
  split_ifs at h
  · cases h
  · cases h
  · cases h
  split at h
  · cases h
  split at h
  · cases h
  next i t ht =>
    rw [← eflags_claimSlot ht j]
    rw [loadProcess] at h
    split at h
    · cases h
    split at h
    · cases h
    split at h
    · cases h
    dsimp only at h
    split_ifs at h
    · rw [← (Prod.mk.inj (Except.ok.inj h)).2]
    · exact absurd (Prod.mk.inj (Except.ok.inj h)).1 (by decide)

section Sound
variable {frozen : Prop} {s s' t : Kernel} {ctx handed : Context}

theorem Sound.saved (h : Sound frozen s) (hctx : FlagsOk frozen ctx.eflags) (hsaved : Saved ctx s t)
    (i : Fin 16) (hi : t.processListUsed i = true ∨ frozen) :
    FlagsOk frozen (t.processList i).context.eflags := by
  cases hsaved with
  | nothing hnone => exact h.flags i hi
  | slot j hj =>
    by_cases hij : i = j
    · subst j
      rw [context_saveTo_self]
      exact hctx
    · rw [processList_saveTo_of_ne ctx j i s hij]
      exact h.flags i hi

/-- What the timer hands out is one of the programs. -/
theorem Sound.tick (h : Sound frozen s) (hctx : Preemptible ctx.eflags)
    (htick : timerTick ctx s = .ok (handed, s')) : Sound frozen s' ∧ FlagsOk frozen handed.eflags := by
  have hstep : Step s (.tick ctx) s' := congrArg (Except.map Prod.snd) htick
  obtain ⟨t, i, hsaved, hi, -, rfl, rfl⟩ := timerTick_outcome htick
  have ht := h.saved (.inl hctx) hsaved
  refine ⟨⟨h.reachable.step hstep, fun j hj => ?_⟩, ht i (.inl hi)⟩
  rw [context_switchTo]
  exact ht j hj

theorem Sound.create {fs : Storage} {request : DriverRequest} {code : Int32} (h : Sound frozen s)
    (hcode : frozen ∨ code ≠ processCreateFailFsReadFailure)
    (hcreate : processCreateUserProcess fs request s = .ok (code, s')) : Sound frozen s' := by
  refine ⟨h.reachable.step (.create hcreate), fun i hi => ?_⟩
  by_cases hread : code = processCreateFailFsReadFailure
  · rw [hread] at hcreate
    rw [eflags_create_unreadable hcreate]
    exact h.flags i (.inr (hcode.resolve_right (not_not.mpr hread)))
  cases h.reachable.isolated.create_outcome hcreate with
  | refused => exact h.flags i hi
  | unreadable j d t answer => exact absurd rfl hread
  | loaded j d t stores hj ht =>
    by_cases hij : i = j
    · subst j
      rw [initializeProcess, processList_setPcb_self]
      exact .inl (by decide : Preemptible (cpuEflagsBaseFlag ||| cpuEflagsFlagInterruptEnable))
    · have hused : (initializeProcess request j (t.setCr3 s.paging.cr3)).processListUsed i =
          s.processListUsed i := (congrFun ht.used i).trans (Function.update_of_ne hij _ _)
      have hpcb : (initializeProcess request j (t.setCr3 s.paging.cr3)).processList i =
          s.processList i := (processList_setPcb_of_ne _ _ _ _ hij).trans (ht.others i hij)
      rw [hused] at hi
      rw [hpcb]
      exact h.flags i hi

theorem Sound.destroy {pid : UInt32} {flags : Fin 8 → Memory.PageDirectoryEntryFlag} {b : Bool}
    (h : Sound frozen s) (hdestroy : processDestroy pid flags s = .ok (b, s'))
    (hs' : Reachable s') : Sound frozen s' := by
  refine ⟨hs', fun i hi => ?_⟩
  rcases h.reachable.isolated.destroy_cases hdestroy with ⟨-, rfl⟩ | ⟨j, -, hd⟩
  · exact h.flags i hi
  · rw [hd.used] at hi
    rw [hd.processes]
    by_cases hij : i = j
    · subst j
      rw [Function.update_self] at hi
      rw [Function.update_self]
      exact flagsOk_zero (hi.resolve_left Bool.false_ne_true)
    · rw [Function.update_of_ne hij] at hi
      rw [Function.update_of_ne hij]
      exact h.flags i hi

theorem Sound.process {event : Process.Event} (h : Sound frozen s) (hstep : Step s event s')
    (hevent : ∀ ctx, event ≠ .tick ctx) (hload : frozen ∨ ¬FailsToLoad event s) : Sound frozen s' := by
  have hs' := h.reachable.step hstep
  cases event with
  | create fs request =>
    obtain ⟨code, hcreate⟩ := map_snd_eq_ok hstep
    refine h.create (hload.imp_right fun hload => ?_) hcreate
    rintro rfl
    exact hload ⟨fs, request, s', rfl, hcreate⟩
  | terminate flags =>
    obtain ⟨b, hdestroy⟩ := map_snd_eq_ok hstep
    exact h.destroy hdestroy hs'
  | kill pid flags =>
    obtain ⟨b, hdestroy⟩ := map_snd_eq_ok hstep
    exact h.destroy hdestroy hs'
  | tick ctx => exact absurd rfl (hevent ctx)

end Sound

end Os2024.Interrupts
