import Os2024.Process.Isolation

/-! # The count of the active processes

`active_process_count` is kept beside the flags of the slots. A creation raises
both, and a destruction lowers the count whether or not the slot was in use. As
long as no free slot is destroyed the two agree, and then a creation that passes
the count check finds a slot.
-/

namespace Os2024.Process
open Library.FlagTable Library.Runs Memory Memory.Paging FileSystem

def usedCount (s : Kernel) : ℕ := setCount Finset.univ s.processListUsed

/-- The count is the number of used slots, and the search behind the count check finds a slot. -/
structure Accounted (s : Kernel) : Prop where
  count : s.activeProcessCount.toNat = usedCount s
  slot : s.activeProcessCount < processCountMax → ∃ i, processListGetInactiveIndex s = some i

theorem accounted_iff {s : Kernel} : Accounted s ↔ s.activeProcessCount.toNat = usedCount s := by
  refine ⟨Accounted.count, fun h => ⟨h, fun hlt => inactiveIndex_of_unused ?_⟩⟩
  by_contra hfull
  have hclear : clearCount Finset.univ s.processListUsed = 0 :=
    clearCount_eq_zero.mpr fun i _ => Bool.eq_true_of_not_eq_false fun hi => hfull ⟨i, hi⟩
  have hsplit := setCount_add_clearCount Finset.univ s.processListUsed
  have hmax : processCountMax.toNat = 16 := rfl
  rw [Finset.card_fin] at hsplit
  rw [UInt32.lt_iff_toNat_lt, h, hmax, usedCount] at hlt
  omega

theorem usedCount_le (s : Kernel) : usedCount s ≤ 16 := by
  have hsplit := setCount_add_clearCount Finset.univ s.processListUsed
  rw [Finset.card_fin] at hsplit
  rw [usedCount]
  omega

theorem Accounted.claimed {s t : Kernel} {i : Fin 16} {d : Fin 32} {buf : UInt32} (h : Accounted s)
    (hi : s.processListUsed i = false) (ht : Claimed s t i d buf) : Accounted t := by
  have hle := usedCount_le t
  have hused : usedCount t = usedCount s + 1 := by
    rw [usedCount, ht.used, setCount_take (Finset.mem_univ i) hi, usedCount]
  have hone : (1 : UInt32).toNat = 1 := rfl
  apply accounted_iff.mpr
  rw [ht.count, UInt32.toNat_add, h.count, hused, hone]
  omega

theorem Accounted.create {fs : Storage} {request : DriverRequest} {s s' : Kernel} {code : Int32}
    (h : Accounted s) (hcreate : CreateOutcome fs request s code s') : Accounted s' := by
  cases hcreate with
  | refused code hcode => exact h
  | unreadable i d t answer hi ht hread hcode =>
    exact accounted_iff.mpr (h.claimed hi.unused ht).count
  | loaded i d t stores hi ht hread hstores =>
    exact accounted_iff.mpr (h.claimed hi.unused ht).count

/-- A destruction keeps the count right exactly when the slot was in use. -/
theorem Accounted.destroyed_iff {s s' : Kernel} {i : Fin 16} (h : Accounted s)
    (hd : Destroyed s s' i) : Accounted s' ↔ s.processListUsed i = true := by
  have hone : (1 : UInt32).toNat = 1 := rfl
  have hle := usedCount_le s
  have hnew : usedCount s' = setCount Finset.univ (Function.update s.processListUsed i false) := by
    rw [usedCount, hd.used]
  rw [accounted_iff, hd.count, UInt32.toNat_sub, h.count, hone, hnew]
  cases hi : s.processListUsed i with
  | true =>
    have hreturn : _ = usedCount s := setCount_return (Finset.mem_univ i) hi
    apply iff_of_true _ rfl
    omega
  | false =>
    have hsame : Function.update s.processListUsed i false = s.processListUsed := by
      rw [← hi, Function.update_eq_self]
    have hold : setCount Finset.univ s.processListUsed = usedCount s := rfl
    rw [hsame, hold]
    apply iff_of_false _ (by decide)
    omega

/-- Every slot that the event destroys is in use. -/
def Event.SparesFree (event : Event) (s : Kernel) : Prop :=
  ∀ pid, event.victim s = some pid → ∀ i : Fin 16, pid.toNat = i → s.processListUsed i = true

theorem Accounted.destroy_iff {s s' : Kernel} {pid : UInt32}
    {flags : Fin 8 → PageDirectoryEntryFlag} {b : Bool} (h : Accounted s) (hs : Isolated s)
    (hdestroy : processDestroy pid flags s = .ok (b, s')) :
    Accounted s' ↔ ∀ i : Fin 16, pid.toNat = i → s.processListUsed i = true := by
  rcases hs.destroy_cases hdestroy with ⟨hpid, rfl⟩ | ⟨i, hpid, hd⟩
  · exact iff_of_true h fun i hi => absurd (hi ▸ i.isLt) hpid
  · rw [h.destroyed_iff hd]
    refine ⟨fun hi j hj => ?_, fun hall => hall i hpid⟩
    obtain rfl : i = j := Fin.ext (hpid.symm.trans hj)
    exact hi

theorem Accounted.tick {s s' : Kernel} {ctx handed : Context} (h : Accounted s)
    (htick : timerTick ctx s = .ok (handed, s')) : Accounted s' := by
  obtain ⟨t, i, hsaved, -, -, -, rfl⟩ := timerTick_outcome htick
  have hcount : t.activeProcessCount = s.activeProcessCount := by
    cases hsaved <;> rfl
  apply accounted_iff.mpr
  change t.activeProcessCount.toNat = setCount Finset.univ t.processListUsed
  rw [hcount, hsaved.used]
  exact h.count

/-- From a state with the right count, a step leads to one exactly when it destroys no free slot. -/
theorem Accounted.step_iff {s s' : Kernel} {event : Event} (h : Accounted s) (hs : Isolated s)
    (hstep : Step s event s') : Accounted s' ↔ event.SparesFree s := by
  cases event with
  | create fs request =>
    obtain ⟨code, hcreate⟩ := map_snd_eq_ok hstep
    exact iff_of_true (h.create (hs.create_outcome hcreate)) (by rintro pid ⟨⟩)
  | terminate flags =>
    obtain ⟨b, hdestroy⟩ := map_snd_eq_ok hstep
    rw [h.destroy_iff hs hdestroy]
    exact ⟨fun hall pid hpid => Option.some.inj hpid ▸ hall, fun hall => hall _ rfl⟩
  | kill pid flags =>
    obtain ⟨b, hdestroy⟩ := map_snd_eq_ok hstep
    rw [h.destroy_iff hs hdestroy]
    exact ⟨fun hall pid hpid => Option.some.inj hpid ▸ hall, fun hall => hall _ rfl⟩
  | tick ctx =>
    obtain ⟨handed, htick⟩ := map_snd_eq_ok hstep
    exact iff_of_true (h.tick htick) (by rintro pid ⟨⟩)

def CountedStep (s : Kernel) (event : Event) (s' : Kernel) : Prop :=
  Step s event s' ∧ event.SparesFree s

theorem kernelStart_accounted : Accounted kernelStart := accounted_iff.mpr rfl

/-- In every run that destroys no free slot the count is right, and the first step that destroys
one makes it wrong. -/
theorem countedRun_accounted {s : Kernel} (hrun : Run CountedStep kernelStart s) :
    Accounted s ∧ ∀ event s', Step s event s' → (Accounted s' ↔ event.SparesFree s) := by
  obtain ⟨hs, h⟩ : Isolated s ∧ Accounted s :=
    hrun.invariant (I := fun s => Isolated s ∧ Accounted s) ⟨kernelStart_isolated, kernelStart_accounted⟩
      fun t event t' ht hstep => ⟨ht.1.step hstep.1, (ht.2.step_iff ht.1 hstep.1).mpr hstep.2⟩
  exact ⟨h, fun event s' hstep => h.step_iff hs hstep⟩

theorem countedRun_accounted_note : ∃ s',
    processCreateUserProcess noteStorage noteProgram kernelStart = .ok (processCreateSuccess, s') ∧
      Accounted s' := by
  obtain ⟨d, t, -, heq⟩ := create_note kernelStart_isolated (i := 0) (by decide) rfl (by decide)
  have hstep : CountedStep kernelStart (.create noteStorage noteProgram) _ :=
    ⟨.create heq, by rintro pid ⟨⟩⟩
  exact ⟨_, heq, (countedRun_accounted ((Run.refl kernelStart).tail hstep)).1⟩

/-- Killing a pid that no process has makes the count wrap below zero, and from then on every
creation is refused. -/
theorem kill_free_slot_wraps : ∃ s',
    Step kernelStart (.kill 3 fun _ => userFlag) s' ∧ s'.activeProcessCount = 0xFFFFFFFF ∧
    ¬Accounted s' ∧ ∀ fs request, processCreateUserProcess fs request s' =
      .ok (processCreateFailMaxProcessExceeded, s') := by
  have hpid : (3 : UInt32).toNat = (3 : Fin 16) := rfl
  obtain ⟨s', hkill, hd⟩ := processDestroy_eq kernelStart_isolated.frames hpid
    (kernelStart_isolated.owns 3) fun _ => userFlag
  refine ⟨s', .kill hkill, hd.count, fun h => ?_, fun fs request => ?_⟩
  · have hused := (kernelStart_accounted.destroyed_iff hd).mp h
    cases hused
  · rw [processCreateUserProcess, hd.count]
    exact if_pos (by decide)

end Os2024.Process
