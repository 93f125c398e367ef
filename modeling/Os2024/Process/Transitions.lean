import Os2024.Memory.Frames
import Os2024.Process.Scheduler

/-! # What a destruction and a timer interrupt do

A destruction clears the slot, returns its frames and its directory. A timer
interrupt saves the registers to the slot that `current_running_pid` names and
loads the directory of a used slot.
-/

namespace Os2024.Process
open Memory Memory.Paging

theorem freePageFrames_eq {pageDir : DirectoryRef} (memory : ProcessMemory)
    (flags : Fin 8 → PageDirectoryEntryFlag) (l : List (Fin 8)) {s : Paging} (h : s.FramesOk)
    (hr : s.InUse pageDir) : ∃ s', freePageFrames pageDir memory flags l s = .ok s' ∧ s'.FramesOk ∧
      OnlyDirectory s s' pageDir ∧ s.allocatable ≤ s'.allocatable ∧
      ∀ j, s'.pageFrameMap j = true ↔ s.pageFrameMap j = true ∧
        ¬∃ k ∈ l, memory.dataVirtualAddrUsed k = true ∧
          s.target (pageDir, upperBits (memory.virtualAddrUsed k)) = some (j.castLE (by decide)) := by
  induction l generalizing s with
  | nil => exact ⟨s, rfl, h, .refl s pageDir, le_rfl, fun j => by simp⟩
  | cons k rest ih =>
    rw [freePageFrames]
    by_cases hk : memory.dataVirtualAddrUsed k = true
    · obtain ⟨b, t, hfree, hreturn⟩ := h.free hr (memory.virtualAddrUsed k) (flags k)
      have honly := hreturn.onlyDirectory
      obtain ⟨s', hs', hok, honly', hle', hmap⟩ := ih (hreturn.framesOk h hr)
        ((honly.inUse_iff pageDir).mpr hr)
      rw [if_pos hk, hfree]
      refine ⟨s', hs', hok, honly.trans honly', hreturn.allocatable_le.trans hle', fun j => ?_⟩
      rw [hmap, hreturn.pageFrameMap_iff, and_assoc]
      refine and_congr_right fun _ => ?_
      simp only [List.exists_mem_cons_iff, hk, true_and, not_or, hreturn.target_eq hr.ne_null]
      refine and_congr_right fun hhead => not_congr (exists_congr fun k' => ?_)
      refine and_congr_right fun _ => and_congr_right fun _ => ?_
      split_ifs with hpage
      · rw [hpage]
        exact iff_of_false (by simp) hhead
      · rfl
    · rw [if_neg hk]
      obtain ⟨s', hs', hok, honly, hle, hmap⟩ := ih h hr
      refine ⟨s', hs', hok, honly, hle, fun j => ?_⟩
      rw [hmap, List.exists_mem_cons_iff]
      simp [hk]

theorem freePageFrames_idle {pageDir : DirectoryRef} {memory : ProcessMemory}
    (hidle : ∀ k, memory.dataVirtualAddrUsed k = false) (flags : Fin 8 → PageDirectoryEntryFlag)
    (l : List (Fin 8)) (s : Paging) : freePageFrames pageDir memory flags l s = .ok s := by
  induction l with
  | nil => rfl
  | cons k rest ih =>
    rw [freePageFrames, if_neg (by rw [hidle k]; decide)]
    exact ih

structure Destroyed (s s' : Kernel) (i : Fin 16) : Prop where
  processes : s'.processList = Function.update s.processList i .zero
  used : s'.processListUsed = Function.update s.processListUsed i false
  count : s'.activeProcessCount = s.activeProcessCount - 1
  running : s'.currentRunningPid = s.currentRunningPid
  cr3 : s'.paging.cr3 = s.paging.cr3
  frames : s'.paging.FramesOk
  allocatable : s.paging.allocatable ≤ s'.paging.allocatable
  inUse : ∀ r, s'.paging.InUse r ↔ s.paging.InUse r ∧ r ≠ s.directoryOf i
  directories : ∀ r, r ≠ s.directoryOf i → s'.paging.directory r = s.paging.directory r

/-- An idle slot owns nothing, a used one a directory that is in use. -/
def Owns (s : Kernel) (i : Fin 16) : Prop :=
  (s.directoryOf i = .null ∧ ∀ k, (s.processList i).memory.dataVirtualAddrUsed k = false) ∨
    ∃ d, s.directoryOf i = .entry d ∧ s.paging.pageDirectoryUsed d = true

theorem processDestroy_eq {s : Kernel} (h : s.paging.FramesOk) {pid : UInt32} {i : Fin 16}
    (hpid : pid.toNat = i) (hi : Owns s i) (flags : Fin 8 → PageDirectoryEntryFlag) :
    ∃ s', processDestroy pid flags s = .ok (true, s') ∧ Destroyed s s' i := by
  have hlt : pid.toNat < 16 := hpid ▸ i.isLt
  have hindex : (⟨pid.toNat, hlt⟩ : Fin 16) = i := Fin.ext hpid
  rw [processDestroy, dif_pos hlt, hindex]
  dsimp only
  rcases hi with ⟨hnull, hidle⟩ | ⟨d, hd, hused⟩
  · rw [freePageFrames_idle hidle]
    have hfreed : (pagingFreePageDirectory (s.directoryOf i) s.paging).2 = s.paging := by
      rw [hnull]
      rfl
    refine ⟨_, rfl, ⟨rfl, rfl, rfl, rfl, congrArg cr3 hfreed, hfreed.symm ▸ h,
      (congrArg allocatable hfreed).ge, fun r => ?_, fun r _ => congrArg (fun p => directory p r) hfreed⟩⟩
    change InUse (pagingFreePageDirectory (s.directoryOf i) s.paging).2 r ↔ _
    rw [hfreed, hnull]
    exact ⟨fun hr => ⟨hr, hr.ne_null⟩, And.left⟩
  · have hin : s.paging.InUse (s.directoryOf i) := by
      rw [hd]
      exact hused
    obtain ⟨t, ht, hok, honly, hle, -⟩ := freePageFrames_eq (s.processList i).memory flags
      (List.finRange 8) h hin
    rw [Kernel.directoryOf] at ht
    rw [ht]
    have hfreed : (pagingFreePageDirectory (s.directoryOf i) t).2 = t.dropped d := by
      rw [hd, freePageDirectory_entry]
    refine ⟨_, rfl, ⟨rfl, rfl, rfl, rfl, ?_, hfreed.symm ▸ hok.dropped, ?_, fun r => ?_,
      fun r hr => ?_⟩⟩
    · exact (congrArg cr3 hfreed).trans honly.cr3
    · exact hle.trans (congrArg allocatable hfreed).ge
    · change InUse (pagingFreePageDirectory (s.directoryOf i) t).2 r ↔ _
      rw [hfreed, inUse_dropped, honly.inUse_iff, hd]
    · change directory (pagingFreePageDirectory (s.directoryOf i) t).2 r = _
      rw [hfreed, directory_dropped_of_ne (hd ▸ hr), honly.directories r hr]

theorem processDestroy_outside {pid : UInt32} (hpid : ¬pid.toNat < 16)
    (flags : Fin 8 → PageDirectoryEntryFlag) (s : Kernel) :
    processDestroy pid flags s = .ok (false, s) := by
  rw [processDestroy, dif_neg hpid]

theorem ofNat_slot_toNat (i : Fin 16) : (UInt32.ofNat i).toNat = i := by
  rw [UInt32.toNat_ofNat']
  omega

theorem ofNat_slot_ne (i : Fin 16) : UInt32.ofNat i ≠ noProcessRunning := by
  intro h
  have hval := congrArg UInt32.toNat h
  have hnone : noProcessRunning.toNat = 2 ^ 32 - 1 := rfl
  rw [ofNat_slot_toNat, hnone] at hval
  omega

def Context.save (c ctx : Context) : Context :=
  { c with
    cpu := ctx.cpu
    eip := ctx.eip
    eflags := ctx.eflags }

def saveTo (ctx : Context) (i : Fin 16) (s : Kernel) : Kernel :=
  s.setPcb i
    { s.processList i with
      state := .ready
      context := (s.processList i).context.save ctx }

def switchTo (i : Fin 16) (s : Kernel) : Kernel :=
  { s.setPcb i { s.processList i with state := .running } with
    paging := { s.paging with cr3 := s.directoryOf i }
    currentRunningPid := UInt32.ofNat i }

section SaveSwitch
variable (ctx : Context) (i j : Fin 16) (s : Kernel)

theorem processList_saveTo_of_ne (h : j ≠ i) : (saveTo ctx i s).processList j = s.processList j :=
  processList_setPcb_of_ne s i j _ h

theorem context_saveTo_self : ((saveTo ctx i s).processList i).context =
    (s.processList i).context.save ctx := by rw [saveTo, processList_setPcb_self]

@[simp] theorem directoryOf_saveTo : (saveTo ctx i s).directoryOf j = s.directoryOf j := by
  by_cases h : j = i
  · subst j
    rw [Kernel.directoryOf, context_saveTo_self]
    rfl
  · rw [Kernel.directoryOf, processList_saveTo_of_ne ctx i j s h, Kernel.directoryOf]

@[simp] theorem memory_saveTo : ((saveTo ctx i s).processList j).memory =
    (s.processList j).memory := by
  by_cases h : j = i
  · subst j
    rw [saveTo, processList_setPcb_self]
  · rw [processList_saveTo_of_ne ctx i j s h]

theorem processList_switchTo_self : (switchTo i s).processList i =
    { s.processList i with state := .running } := Function.update_self ..

theorem processList_switchTo_of_ne (h : j ≠ i) : (switchTo i s).processList j = s.processList j :=
  Function.update_of_ne h _ _

@[simp] theorem context_switchTo : ((switchTo i s).processList j).context =
    (s.processList j).context := by
  by_cases h : j = i
  · subst j
    rw [processList_switchTo_self]
  · rw [processList_switchTo_of_ne i j s h]

@[simp] theorem directoryOf_switchTo : (switchTo i s).directoryOf j = s.directoryOf j := by
  rw [Kernel.directoryOf, context_switchTo, Kernel.directoryOf]

@[simp] theorem memory_switchTo : ((switchTo i s).processList j).memory =
    (s.processList j).memory := by
  by_cases h : j = i
  · subst j
    rw [processList_switchTo_self]
  · rw [processList_switchTo_of_ne i j s h]

end SaveSwitch

inductive Saved (ctx : Context) (s : Kernel) : Kernel → Prop where
  | nothing (h : s.currentRunningPid = noProcessRunning) : Saved ctx s s
  | slot (i : Fin 16) (h : s.currentRunningPid = UInt32.ofNat i) : Saved ctx s (saveTo ctx i s)

theorem save_outcome {ctx : Context} {s t : Kernel}
    (h : schedulerSaveContextToCurrentRunningPcb ctx s = .ok t) : Saved ctx s t := by
  rw [schedulerSaveContextToCurrentRunningPcb] at h
  by_cases hnone : s.currentRunningPid = noProcessRunning
  · rw [if_pos hnone] at h
    obtain rfl := Except.ok.inj h
    exact .nothing hnone
  · rw [if_neg hnone] at h
    by_cases hlt : s.currentRunningPid.toNat < 16
    · rw [dif_pos hlt] at h
      obtain rfl := Except.ok.inj h
      refine .slot ⟨_, hlt⟩ (UInt32.toNat_inj.mp ?_)
      rw [ofNat_slot_toNat]
    · rw [dif_neg hlt] at h
      cases h

theorem save_eq (ctx : Context) {s : Kernel} {i : Fin 16}
    (h : s.currentRunningPid = UInt32.ofNat i) :
    schedulerSaveContextToCurrentRunningPcb ctx s = .ok (saveTo ctx i s) := by
  have hval : s.currentRunningPid.toNat = i := by rw [h, ofNat_slot_toNat]
  have hlt : s.currentRunningPid.toNat < 16 := hval ▸ i.isLt
  have hindex : (⟨s.currentRunningPid.toNat, hlt⟩ : Fin 16) = i := Fin.ext hval
  rw [schedulerSaveContextToCurrentRunningPcb, if_neg (h ▸ ofNat_slot_ne i), dif_pos hlt, hindex]
  rfl

theorem nextIndex_val (index : UInt32) : (nextIndex index : ℕ) = (index.toNat + 1) % 16 := by
  have hmax : processCountMax.toNat = 16 := rfl
  have hone : (1 : UInt32).toNat = 1 := rfl
  rw [nextIndex]
  dsimp only
  rw [UInt32.toNat_mod, UInt32.toNat_add, hmax, hone]
  omega

theorem findNextUsed_used {used : Fin 16 → Bool} {fuel : ℕ} {index : UInt32} {i : Fin 16}
    (h : findNextUsed used fuel index = some i) : used i = true := by
  induction fuel generalizing index with
  | zero => cases h
  | succ fuel ih =>
    rw [findNextUsed] at h
    by_cases hused : used (nextIndex index) = true
    · rw [if_pos hused] at h
      exact Option.some.inj h ▸ hused
    · rw [if_neg hused] at h
      exact ih h

/-- A search that fails has seen as many slots as it took steps. -/
theorem findNextUsed_eq_none {used : Fin 16 → Bool} {fuel : ℕ} {index : UInt32}
    (h : findNextUsed used fuel index = none) (i : Fin 16)
    (hi : ∃ k < fuel, (i : ℕ) = (index.toNat + 1 + k) % 16) : used i = false := by
  induction fuel generalizing index with
  | zero =>
    obtain ⟨k, hk, -⟩ := hi
    exact absurd hk (Nat.not_lt_zero k)
  | succ fuel ih =>
    rw [findNextUsed] at h
    by_cases hused : used (nextIndex index) = true
    · rw [if_pos hused] at h
      cases h
    · rw [if_neg hused] at h
      obtain ⟨k, hk, hval⟩ := hi
      cases k with
      | zero =>
        obtain rfl : i = nextIndex index := Fin.ext (by rw [hval, nextIndex_val, Nat.add_zero])
        exact Bool.eq_false_of_not_eq_true hused
      | succ k =>
        refine ih h ⟨k, by omega, ?_⟩
        rw [ofNat_slot_toNat, nextIndex_val]
        omega

theorem findNextUsed_idle {used : Fin 16 → Bool} (h : ∀ i, used i = false) (fuel : ℕ)
    (index : UInt32) : findNextUsed used fuel index = none := by
  cases hfind : findNextUsed used fuel index with
  | none => rfl
  | some i =>
    have hi := findNextUsed_used hfind
    rw [h i] at hi
    cases hi

theorem findNextUsed_isSome {used : Fin 16 → Bool} {i : Fin 16} (hi : used i = true)
    (index : UInt32) : ∃ j, findNextUsed used 16 index = some j := by
  cases hfind : findNextUsed used 16 index with
  | some j => exact ⟨j, rfl⟩
  | none =>
    have hclear := findNextUsed_eq_none hfind i
      ⟨(i + 16 - (index.toNat + 1) % 16) % 16, by omega, by omega⟩
    rw [hi] at hclear
    cases hclear

/-- A timer interrupt saves the registers and hands out the context of a used slot. -/
theorem timerTick_outcome {ctx handed : Context} {s s' : Kernel}
    (h : timerTick ctx s = .ok (handed, s')) : ∃ t i, Saved ctx s t ∧ t.processListUsed i = true ∧
      t.directoryOf i ≠ .null ∧ handed = (t.processList i).context ∧ s' = switchTo i t := by
  rw [timerTick] at h
  cases hsave : schedulerSaveContextToCurrentRunningPcb ctx s with
  | error f =>
    rw [hsave] at h
    cases h
  | ok t =>
    rw [hsave] at h
    dsimp only at h
    rw [schedulerSwitchToNextProcess] at h
    dsimp only at h
    split at h
    · cases h
    · next i hfind =>
      by_cases hnull : (t.processList i).context.pageDirectoryVirtualAddr = .null
      · rw [pagingUsePageDirectory, if_pos hnull] at h
        cases h
      · rw [pagingUsePageDirectory, if_neg hnull] at h
        obtain ⟨rfl, rfl⟩ := Prod.mk.inj (Except.ok.inj h)
        exact ⟨t, i, save_outcome hsave, findNextUsed_used hfind, hnull, rfl, rfl⟩

theorem Saved.used {ctx : Context} {s t : Kernel} (h : Saved ctx s t) :
    t.processListUsed = s.processListUsed := by cases h <;> rfl

theorem Saved.paging {ctx : Context} {s t : Kernel} (h : Saved ctx s t) : t.paging = s.paging := by
  cases h <;> rfl

theorem Saved.directoryOf {ctx : Context} {s t : Kernel} (h : Saved ctx s t) (i : Fin 16) :
    t.directoryOf i = s.directoryOf i := by
  cases h with
  | nothing _ => rfl
  | slot j _ => exact directoryOf_saveTo ctx j i s

theorem Saved.memory {ctx : Context} {s t : Kernel} (h : Saved ctx s t) (i : Fin 16) :
    (t.processList i).memory = (s.processList i).memory := by
  cases h with
  | nothing _ => rfl
  | slot j _ => exact memory_saveTo ctx j i s

end Os2024.Process
