import Os2024.Library.CyclicOrder
import Os2024.Process.Running

/-! # The scheduler takes turns

The search for the next process goes up from the slot of the last one and wraps
around, so the timer serves the used slots in turns. Creations and destructions
between two timer interrupts change who is waiting, but never whose turn it was.
-/

namespace Os2024.Process
open Library.CyclicOrder Library.Runs Memory FileSystem

/-- The slot the search starts behind: the last one, or slot 0 when no process has run. -/
def startSlot (s : Kernel) : Fin 16 :=
  if h : s.currentRunningPid.toNat < 16 then ⟨s.currentRunningPid.toNat, h⟩ else 0

theorem startSlot_ofNat {s : Kernel} {i : Fin 16} (h : s.currentRunningPid = UInt32.ofNat i) :
    startSlot s = i := by
  have hval : s.currentRunningPid.toNat = i := by rw [h, ofNat_slot_toNat]
  rw [startSlot, dif_pos (hval ▸ i.isLt)]
  exact Fin.ext hval

theorem startSlot_none {s : Kernel} (h : s.currentRunningPid = noProcessRunning) :
    startSlot s = 0 := by
  rw [startSlot, dif_neg]
  rw [h]
  decide

/-- The search stops at the first used slot of those it visits. -/
theorem findNextUsed_first {used : Fin 16 → Bool} {fuel : ℕ} {index : UInt32} {i : Fin 16}
    (h : findNextUsed used fuel index = some i) : ∃ k < fuel,
      (i : ℕ) = (index.toNat + 1 + k) % 16 ∧
      ∀ j : Fin 16, ∀ m < k, (j : ℕ) = (index.toNat + 1 + m) % 16 → used j = false := by
  induction fuel generalizing index with
  | zero => cases h
  | succ fuel ih =>
    rw [findNextUsed] at h
    have hnext := nextIndex_val index
    by_cases hused : used (nextIndex index) = true
    · rw [if_pos hused] at h
      obtain rfl := Option.some.inj h
      exact ⟨0, Nat.succ_pos fuel, hnext, fun j m hm => absurd hm (Nat.not_lt_zero m)⟩
    · rw [if_neg hused] at h
      obtain ⟨k, hk, hi, hskip⟩ := ih h
      rw [ofNat_slot_toNat, hnext] at hi hskip
      refine ⟨k + 1, Nat.succ_lt_succ hk, by omega, fun j m hm hj => ?_⟩
      cases m with
      | zero =>
        obtain rfl : j = nextIndex index := Fin.ext (hj.trans hnext.symm)
        exact Bool.eq_false_of_not_eq_true hused
      | succ m => exact hskip j m (Nat.lt_of_succ_lt_succ hm) (by omega)

theorem findNextUsed_firstAfter {used : Fin 16 → Bool} {index : UInt32} {a i : Fin 16}
    (hindex : index.toNat = a) (h : findNextUsed used 16 index = some i) :
    FirstAfter (fun j => used j = true) a i := by
  obtain ⟨k, hk, hi, hskip⟩ := findNextUsed_first h
  have hgap : ∀ j : Fin 16, (j : ℕ) = (index.toNat + 1 + gap a j) % 16 := by
    intro j
    have hj := j.isLt
    rw [hindex]
    rcases gap_cases a j with ⟨-, heq⟩ | ⟨-, heq⟩ <;> omega
  have hik : gap a i = k := by
    have hi' := hgap i
    have hlt := gap_lt a i
    omega
  refine ⟨findNextUsed_used h, fun j hj => ?_⟩
  rw [hik]
  by_contra hlt
  have hclear := hskip j (gap a j) (not_le.mp hlt) (hgap j)
  rw [hj] at hclear
  cases hclear

theorem index_toNat {s : Kernel}
    (hpid : s.currentRunningPid.toNat < 16 ∨ s.currentRunningPid = noProcessRunning) :
    (if s.currentRunningPid = noProcessRunning then 0 else s.currentRunningPid).toNat =
      startSlot s := by
  rcases hpid with hlt | hnone
  · have hsome : s.currentRunningPid ≠ noProcessRunning := by
      intro h
      rw [h] at hlt
      exact absurd hlt (by decide)
    rw [if_neg hsome, startSlot, dif_pos hlt]
  · rw [if_pos hnone, startSlot_none hnone]
    rfl

theorem switch_eq {s : Kernel} {j : Fin 16} (hj : s.processListUsed j = true)
    (hpid : s.currentRunningPid.toNat < 16 ∨ s.currentRunningPid = noProcessRunning) :
    ∃ i, FirstAfter (fun j => s.processListUsed j = true) (startSlot s) i ∧
      schedulerSwitchToNextProcess s = if s.directoryOf i = .null then .error .nullDereference
        else .ok ((s.processList i).context, switchTo i s) := by
  obtain ⟨i, hi⟩ := findNextUsed_isSome hj
    (if s.currentRunningPid = noProcessRunning then 0 else s.currentRunningPid)
  refine ⟨i, findNextUsed_firstAfter (index_toNat hpid) hi, ?_⟩
  rw [schedulerSwitchToNextProcess]
  dsimp only
  rw [hi]
  dsimp only
  rw [pagingUsePageDirectory, Kernel.directoryOf]
  split_ifs with hnull
  · rfl
  · rfl

/-- A run that keeps slot `q` used; the list has the slots its timer interrupts switched to. -/
inductive Keeping (q : Fin 16) (s : Kernel) : List (Fin 16) → Kernel → Prop where
  | start (hq : s.processListUsed q = true) : Keeping q s [] s
  | other {l : List (Fin 16)} {t u : Kernel} {event : Event} (h : Keeping q s l t)
      (hevent : ∀ ctx, event ≠ .tick ctx) (hstep : Step t event u)
      (hq : u.processListUsed q = true) : Keeping q s l u
  | tick {l : List (Fin 16)} {t u : Kernel} {ctx handed : Context} {i : Fin 16}
      (h : Keeping q s l t) (htick : timerTick ctx t = .ok (handed, u))
      (hi : u.currentRunningPid = UInt32.ofNat i) : Keeping q s (l ++ [i]) u

/-- Only timer interrupts move `current_running_pid`. -/
theorem currentRunningPid_other {s s' : Kernel} {event : Event} (h : Isolated s)
    (hevent : ∀ ctx, event ≠ .tick ctx) (hstep : Step s event s') :
    s'.currentRunningPid = s.currentRunningPid := by
  have hdestroy : ∀ {pid flags b}, processDestroy pid flags s = .ok (b, s') →
      s'.currentRunningPid = s.currentRunningPid := by
    intro pid flags b hd
    rcases h.destroy_cases hd with ⟨-, rfl⟩ | ⟨i, -, hd⟩
    · rfl
    · exact hd.running
  cases event with
  | create fs request =>
    obtain ⟨code, hcreate⟩ := map_snd_eq_ok hstep
    cases h.create_outcome hcreate with
    | refused code hcode => rfl
    | unreadable i d t answer hi ht hread hanswer => exact ht.running
    | loaded i d t stores hi ht hread hstores => exact ht.running
  | terminate flags => exact hdestroy (map_snd_eq_ok hstep).choose_spec
  | kill pid flags => exact hdestroy (map_snd_eq_ok hstep).choose_spec
  | tick ctx => exact absurd rfl (hevent ctx)

/-- A timer interrupt switches to the first used slot behind the last one. -/
theorem tick_firstAfter {s s' : Kernel} {ctx handed : Context} {i : Fin 16}
    (h : timerTick ctx s = .ok (handed, s')) (hi : s'.currentRunningPid = UInt32.ofNat i) :
    FirstAfter (fun j => s.processListUsed j = true) (startSlot s) i ∧
      s'.processListUsed = s.processListUsed := by
  rw [timerTick] at h
  cases hsave : schedulerSaveContextToCurrentRunningPcb ctx s with
  | error f =>
    rw [hsave] at h
    cases h
  | ok t =>
    have hsaved := save_outcome hsave
    have hpid : t.currentRunningPid = s.currentRunningPid := by cases hsaved <;> rfl
    have hvalid : t.currentRunningPid.toNat < 16 ∨ t.currentRunningPid = noProcessRunning := by
      cases hsaved with
      | nothing hnone => exact .inr hnone
      | slot j hj =>
        refine .inl ?_
        rw [hpid, hj, ofNat_slot_toNat]
        exact j.isLt
    have hstart : startSlot t = startSlot s := by rw [startSlot, startSlot, hpid]
    rw [hsave] at h
    dsimp only at h
    have hused : ∃ j, t.processListUsed j = true := by
      by_contra hidle
      rw [schedulerSwitchToNextProcess] at h
      dsimp only at h
      rw [findNextUsed_idle fun j => Bool.eq_false_of_not_eq_true fun hj => hidle ⟨j, hj⟩] at h
      cases h
    obtain ⟨j, hj⟩ := hused
    obtain ⟨k, hk, heq⟩ := switch_eq hj hvalid
    rw [heq] at h
    split_ifs at h with hnull
    obtain ⟨-, rfl⟩ := Prod.mk.inj (Except.ok.inj h)
    obtain rfl : k = i := by
      apply Fin.ext
      rw [← ofNat_slot_toNat k, ← ofNat_slot_toNat i]
      exact congrArg UInt32.toNat hi
    rw [hstart, hsaved.used] at hk
    exact ⟨hk, hsaved.used⟩

/-- The timer interrupts of a run are turns, and slot `q` waits at each of them. -/
theorem Keeping.turns {q : Fin 16} {s t : Kernel} {l : List (Fin 16)} (h : Keeping q s l t)
    (hs : Isolated s) : Isolated t ∧ t.processListUsed q = true ∧
      startSlot t = l.getLastD (startSlot s) ∧ Turns q (startSlot s) l := by
  induction h with
  | start hq => exact ⟨hs, hq, rfl, .none⟩
  | other h hevent hstep hq ih =>
    obtain ⟨ht, -, hstart, hturns⟩ := ih
    refine ⟨ht.step hstep, hq, ?_, hturns⟩
    rw [← hstart, startSlot, startSlot, currentRunningPid_other ht hevent hstep]
  | tick h htick hi ih =>
    obtain ⟨ht, hq, hstart, hturns⟩ := ih
    obtain ⟨hfirst, hused⟩ := tick_firstAfter htick hi
    rw [hstart] at hfirst
    refine ⟨ht.tick htick, hused ▸ hq, ?_, hturns.next hq hfirst⟩
    rw [startSlot_ofNat hi, List.getLastD_concat]

/-- Every switch ends, at the first used slot behind the last one. In every run a slot that stays
used is selected within 16 switches, and between two selections of another slot. -/
theorem switches_roundRobin {s : Kernel} {j : Fin 16} (hj : s.processListUsed j = true)
    (hpid : s.currentRunningPid.toNat < 16 ∨ s.currentRunningPid = noProcessRunning) :
    (∃ i, FirstAfter (fun j => s.processListUsed j = true) (startSlot s) i ∧
      schedulerSwitchToNextProcess s = if s.directoryOf i = .null then .error .nullDereference
        else .ok ((s.processList i).context, switchTo i s)) ∧
    (Reachable s → ∀ (q : Fin 16) (l : List (Fin 16)) (t : Kernel), Keeping q s l t →
      (16 ≤ l.length → q ∈ l) ∧ ∀ (p : Fin 16) (l' : List (Fin 16)), s.currentRunningPid = UInt32.ofNat p →
        l = l' ++ [p] → q ≠ p → q ∈ l') := by
  refine ⟨switch_eq hj hpid, fun hs q l t hrun => ?_⟩
  obtain ⟨-, -, -, hturns⟩ := hrun.turns hs.isolated
  refine ⟨hturns.mem_of_length, fun p l' hp hl hne => ?_⟩
  rw [startSlot_ofNat hp, hl] at hturns
  exact hturns.mem_of_return hne

section TwoProcesses
variable {s : Kernel} {a b : Fin 16}

theorem tick_to_other (hs : Isolated s) (hab : a ≠ b)
    (hused : ∀ j, s.processListUsed j = true ↔ j = a ∨ j = b) (hstart : startSlot s = a)
    (hpid : s.currentRunningPid = noProcessRunning ∨ s.currentRunningPid = UInt32.ofNat a)
    (ctx : Context) : ∃ handed s', timerTick ctx s = .ok (handed, s') ∧ Running s' b ∧
      s'.processListUsed = s.processListUsed := by
  obtain ⟨t, hsave⟩ : ∃ t, schedulerSaveContextToCurrentRunningPcb ctx s = .ok t := by
    rcases hpid with hnone | hsome
    · exact ⟨s, if_pos hnone⟩
    · exact ⟨_, save_eq ctx hsome⟩
  obtain ⟨handed, s', htick⟩ := timerTick_returns hs ((hused b).mpr (.inr rfl)) hsave
  obtain ⟨i, hrunning⟩ := running_tick htick
  obtain ⟨hfirst, hkept⟩ := tick_firstAfter htick hrunning.running
  rw [hstart] at hfirst
  -- The search reaches the slot it started from last.
  have hib : i = b := by
    rcases (hused i).mp hfirst.member with rfl | hib
    · have hle := hfirst.first b ((hused b).mpr (.inr rfl))
      have hi := i.isLt
      have hb := b.isLt
      rcases gap_cases i i with ⟨hlt, -⟩ | ⟨-, hi'⟩
      · exact absurd hlt (lt_irrefl _)
      rcases gap_cases i b with ⟨-, hb'⟩ | ⟨hbi, hb'⟩
      · omega
      · have hval := Fin.le_def.mp hbi
        exact absurd (Fin.ext (by omega)) hab
    · exact hib
  exact ⟨handed, s', htick, hib ▸ hrunning, hkept⟩

theorem Running.tick_to_other (h : Running s a) (hs : Isolated s) (hab : a ≠ b)
    (hused : ∀ j, s.processListUsed j = true ↔ j = a ∨ j = b) (ctx : Context) :
    ∃ handed s', timerTick ctx s = .ok (handed, s') ∧ Running s' b ∧
      s'.processListUsed = s.processListUsed :=
  Process.tick_to_other hs hab hused (startSlot_ofNat h.running) (.inr h.running) ctx

end TwoProcesses

theorem switches_roundRobin_note : ∃ s₁ s₂ handed s i l t,
    processCreateUserProcess noteStorage noteProgram kernelStart = .ok (processCreateSuccess, s₁) ∧
    processCreateUserProcess noteStorage noteProgram s₁ = .ok (processCreateSuccess, s₂) ∧
    timerTick someContext s₂ = .ok (handed, s) ∧
    FirstAfter (fun j => s.processListUsed j = true) 1 i ∧
    (schedulerSwitchToNextProcess s = if s.directoryOf i = .null then .error .nullDereference
      else .ok ((s.processList i).context, switchTo i s)) ∧
    Keeping 0 s (l ++ [1]) t ∧ 0 ∈ l := by
  obtain ⟨s₁, s₂, hcreate, hcreate', -, hused, hpid⟩ := create_two_notes noteStorage_holdsNote
  have hs₂ := (reachable_kernelStart.step (.create hcreate)).step (.create hcreate')
  obtain ⟨handed, s, htick, hone, hkept⟩ := tick_to_other hs₂.isolated Fin.zero_ne_one hused
    (startSlot_none hpid) (.inl hpid) someContext
  have hstep : Step s₂ (.tick someContext) s := congrArg (Except.map Prod.snd) htick
  have hs := hs₂.step hstep
  have hused' : ∀ j, s.processListUsed j = true ↔ j = 1 ∨ j = 0 := fun j => by
    rw [hkept, hused, or_comm]
  obtain ⟨handed₁, t₁, htick₁, hzero, hkept₁⟩ := hone.tick_to_other hs.isolated Fin.zero_ne_one.symm
    hused' someContext
  have hused₁ : ∀ j, t₁.processListUsed j = true ↔ j = 0 ∨ j = 1 := fun j => by
    rw [hkept₁, hused', or_comm]
  obtain ⟨handed₂, t₂, htick₂, hagain, -⟩ := hzero.tick_to_other (hs.isolated.tick htick₁)
    Fin.zero_ne_one hused₁ someContext
  have hrun : Keeping 0 s ([0] ++ [1]) t₂ :=
    .tick (.tick (.start ((hused' 0).mpr (.inr rfl))) htick₁ hzero.running) htick₂ hagain.running
  have hvalid : s.currentRunningPid.toNat < 16 := by
    rw [hone.running]
    decide
  obtain ⟨⟨i, hfirst, hswitch⟩, hruns⟩ := switches_roundRobin hone.used (.inl hvalid)
  rw [startSlot_ofNat hone.running] at hfirst
  exact ⟨s₁, s₂, handed, s, i, [0], t₂, hcreate, hcreate', htick, hfirst, hswitch, hrun,
    (hruns hs 0 _ t₂ hrun).2 1 [0] hone.running rfl Fin.zero_ne_one⟩

end Os2024.Process
