import Os2024.Process.Answers

/-! # What a destruction gives back

A destruction frees the frame behind each recorded address, so it gives back the
frames that the directory still holds. These are the frames of the creation unless
the page of the executable is the one of the stack: then the second allocation
overwrites the entry of the first, whose frame nobody holds any more.
-/

namespace Os2024.Process
open Library.FlagTable Library.Runs Memory Memory.Paging FileSystem

def framesTaken (s s' : Paging) : Finset (Fin 32) :=
  Finset.univ.filter fun f => s.pageFrameMap f = false ∧ s'.pageFrameMap f = true

theorem frames_le_pages : 32 ≤ 1024 := by decide

def Holds (s : Paging) (r : DirectoryRef) (f : Fin 32) : Prop :=
  ∃ p, s.target (r, p) = some (f.castLE frames_le_pages)

/-- From `s₂` to `s₃` the process in slot `i` has given back what it took from `s` to `s₁`, and
nothing else has changed. -/
structure Released (s s₁ s₂ s₃ : Kernel) (i : Fin 16) : Prop where
  held : ∀ f ∈ framesTaken s.paging s₁.paging, s₂.paging.pageFrameMap f = true
  frames : ∀ f, s₃.paging.pageFrameMap f =
    if f ∈ framesTaken s.paging s₁.paging then false else s₂.paging.pageFrameMap f
  count : s₃.paging.freePageFrameCount.toNat =
    s₂.paging.freePageFrameCount.toNat + (framesTaken s.paging s₁.paging).card
  directory : ∀ d, s.paging.pageDirectoryUsed d = false → s₁.paging.pageDirectoryUsed d = true →
    s₃.paging.pageDirectoryUsed d = false ∧ s₃.paging.pageDirectoryList d = fun _ => .zero
  directories : ∀ d, s₁.paging.pageDirectoryUsed d = s.paging.pageDirectoryUsed d →
    s₃.paging.pageDirectoryUsed d = s₂.paging.pageDirectoryUsed d ∧
      s₃.paging.pageDirectoryList d = s₂.paging.pageDirectoryList d
  slot : s₃.processListUsed i = false
  others : ∀ j, j ≠ i → s₃.processListUsed j = s₂.processListUsed j ∧
    s₃.processList j = s₂.processList j
  unharmed : ∀ j f, j ≠ i → s₂.processListUsed j = true → Holds s₂.paging (s₂.directoryOf j) f →
    s₃.paging.pageFrameMap f = true

/-- Directory `r` holds exactly the frames taken since `base`. -/
def HoldsTaken (base s : Paging) (r : DirectoryRef) : Prop :=
  ∀ f, f ∈ framesTaken base s ↔ Holds s r f

section Gives
variable {base s s' : Paging} {r : DirectoryRef} {virtualAddr : UInt32} {f : Fin 32}

theorem mem_framesTaken :
    f ∈ framesTaken s s' ↔ s.pageFrameMap f = false ∧ s'.pageFrameMap f = true := by
  simp [framesTaken]

theorem target_allocated (hr : r ≠ .null) (hf : f ≠ 0) (p : Fin 1024) :
    (s.allocated r virtualAddr f).target (r, p) =
      if p = upperBits virtualAddr then some (f.castLE (by decide)) else s.target (r, p) := by
  split_ifs with hp
  · subst p
    rw [target_eq_some, directory_allocated_self hr, Function.update_self]
    refine ⟨fun h0 => hf (Fin.ext ?_), rfl⟩
    exact congrArg (fun f : Fin 1024 => f.val) h0
  · exact target_congr (by rw [directory_allocated_self hr, Function.update_of_ne hp])

theorem Gives.marked (hgives : Gives r virtualAddr s s') (hf : s.pageFrameMap f = true) :
    s'.pageFrameMap f = true := by
  rcases hgives with ⟨-, rfl⟩ | ⟨i, -, -, rfl⟩
  · exact hf
  rw [pageFrameMap_allocated]
  by_cases hfi : f = i
  · rw [hfi, Function.update_self]
  · rw [Function.update_of_ne hfi, hf]

theorem HoldsTaken.of_fresh (hmap : s.pageFrameMap = base.pageFrameMap)
    (hfresh : ∀ p, s.target (r, p) = none) : HoldsTaken base s r := by
  intro f
  refine iff_of_false (fun hf => ?_) ?_
  · obtain ⟨hfree, hmarked⟩ := mem_framesTaken.mp hf
    rw [hmap, hfree] at hmarked
    cases hmarked
  · rintro ⟨p, hp⟩
    rw [hfresh] at hp
    cases hp

theorem HoldsTaken.gives (h : HoldsTaken base s r) (hgives : Gives r virtualAddr s s')
    (hr : r ≠ .null) (hle : ∀ f, base.pageFrameMap f = true → s.pageFrameMap f = true)
    (hempty : s.target (r, upperBits virtualAddr) = none ∨ s.allocatable = 0) :
    HoldsTaken base s' r := by
  rcases hgives with ⟨-, rfl⟩ | ⟨i, hi, hfree, rfl⟩
  · exact h
  have hempty : s.target (r, upperBits virtualAddr) = none := by
    refine hempty.resolve_right fun h0 => ?_
    exact absurd (clearCount_pos (Finset.mem_erase.mpr ⟨hi, Finset.mem_univ i⟩) hfree) (by
      rw [allocatable] at h0
      omega)
  have hbase : base.pageFrameMap i = false := by
    by_contra hmarked
    rw [hle i (Bool.eq_true_of_not_eq_false hmarked)] at hfree
    cases hfree
  intro f
  rw [mem_framesTaken, pageFrameMap_allocated]
  by_cases hfi : f = i
  · subst f
    refine iff_of_true ⟨hbase, Function.update_self ..⟩ ⟨upperBits virtualAddr, ?_⟩
    rw [target_allocated hr hi, if_pos rfl]
  · rw [Function.update_of_ne hfi, ← mem_framesTaken, h f]
    refine exists_congr fun p => ?_
    rw [target_allocated hr hi]
    split_ifs with hp
    · rw [hp, hempty]
      refine iff_of_false (by rintro ⟨⟩) fun heq => hfi (Fin.ext ?_)
      exact congrArg (fun f : Fin 1024 => f.val) (Option.some.inj heq).symm
    · rfl

end Gives

/-- The new directory holds the frames of its creation exactly when the second allocation does not
overwrite the entry of the first. -/
theorem ClaimedPages.holdsTaken_iff {s s' : Paging} {d : Fin 32} {buf : UInt32}
    (h : ClaimedPages s d buf s') : HoldsTaken s s' (.entry d) ↔
      upperBits buf ≠ upperBits userStackTop ∨ s.allocatable < 2 := by
  obtain ⟨-, s₁, h₁, h₂⟩ := h
  have hr : DirectoryRef.entry d ≠ .null := by rintro ⟨⟩
  -- the directory starts out without any frame
  obtain ⟨s₀, hs₀⟩ : ∃ s₀, s₀ = ({ s.created d with cr3 := .entry d } : Paging) := ⟨_, rfl⟩
  have hmap : s₀.pageFrameMap = s.pageFrameMap := by rw [hs₀]; rfl
  have hframes : s₀.allocatable = s.allocatable := by rw [allocatable, hmap, allocatable]
  have hfresh : ∀ p, s₀.target (.entry d, p) = none := by
    intro p
    rw [target_eq_none, hs₀, directory_withCr3, directory_created_self]
    exact freshDirectory_lowerAddress p
  rw [← hs₀] at h₁
  have hleft := h₁.allocatable_eq
  constructor
  · intro hholds
    by_contra hnot
    rw [not_or, not_not, not_lt] at hnot
    obtain ⟨hpage, htwo⟩ := hnot
    rcases h₁ with ⟨h0, -⟩ | ⟨i, hi, hfree, rfl⟩
    · omega
    rcases h₂ with ⟨h0, -⟩ | ⟨j, hj, hfree', rfl⟩
    · omega
    rw [pageFrameMap_allocated] at hfree'
    have hij : i ≠ j := by
      rintro rfl
      rw [Function.update_self] at hfree'
      cases hfree'
    -- frame `i` is taken, but no entry leads to it
    have htaken : i ∈ framesTaken s ((s₀.allocated (.entry d) buf i).allocated (.entry d)
        userStackTop j) := by
      rw [mem_framesTaken, pageFrameMap_allocated, Function.update_of_ne hij,
        pageFrameMap_allocated, Function.update_self]
      exact ⟨hmap ▸ hfree, rfl⟩
    obtain ⟨p, hp⟩ := (hholds i).mp htaken
    rw [target_allocated hr hj, target_allocated hr hi, hpage, hfresh] at hp
    split_ifs at hp with hstack
    refine hij (Fin.ext ?_)
    exact congrArg (fun f : Fin 1024 => f.val) (Option.some.inj hp).symm
  · intro hcond
    have hstart : HoldsTaken s s₀ (.entry d) := .of_fresh hmap hfresh
    have hfirst := hstart.gives h₁ hr (fun f hf => hmap ▸ hf) (.inl (hfresh _))
    refine hfirst.gives h₂ hr (fun f hf => ?_) ?_
    · exact h₁.marked (by rw [hmap, hf])
    · rcases hcond with hpage | hfew
      · refine .inl ?_
        rw [target_congr (h₁.entry_of_ne hr hpage.symm), hfresh]
      · exact .inr (by omega)

/-- The process in slot `i` has directory `d` with these entries and this memory record. -/
structure Occupies (s : Kernel) (i : Fin 16) (d : Fin 32) (pages : PageDirectory)
    (memory : ProcessMemory) : Prop where
  used : s.processListUsed i = true
  directory : s.directoryOf i = .entry d
  pages : s.paging.directory (.entry d) = pages
  memory : (s.processList i).memory = memory

def OtherStep (i : Fin 16) (s : Kernel) (event : Event) (s' : Kernel) : Prop :=
  Step s event s' ∧ ∀ pid, event.victim s = some pid → pid.toNat ≠ i

namespace Occupies
variable {s s' : Kernel} {i : Fin 16} {d : Fin 32} {pages : PageDirectory} {memory : ProcessMemory}

theorem claimed {t : Kernel} {j : Fin 16} {d' : Fin 32} {buf : UInt32}
    (h : Occupies s i d pages memory) (hs : Isolated s) (hj : s.processListUsed j = false)
    (ht : Claimed s t j d' buf) : Occupies t i d pages memory := by
  have hij : i ≠ j := by
    rintro rfl
    exact absurd (h.used.symm.trans hj) (by decide)
  have hdd : DirectoryRef.entry d ≠ .entry d' := by
    intro heq
    obtain ⟨d₀, hd₀, hused⟩ := hs.slotDirectory i h.used
    obtain rfl := DirectoryRef.entry.inj (heq.symm.trans (h.directory.symm.trans hd₀))
    exact absurd (hused.symm.trans ht.pages.1) (by decide)
  constructor
  · rw [ht.used, Function.update_of_ne hij, h.used]
  · rw [Kernel.directoryOf, ht.others i hij]
    exact h.directory
  · rw [ht.pages.directory_of_ne hdd, h.pages]
  · rw [ht.others i hij, h.memory]

theorem destroyed {j : Fin 16} (h : Occupies s i d pages memory) (hs : Isolated s)
    (hd : Destroyed s s' j) (hij : i ≠ j) : Occupies s' i d pages memory := by
  have hdir : DirectoryRef.entry d ≠ s.directoryOf j := by
    intro heq
    cases hj : s.processListUsed j with
    | false =>
      rw [(hs.idle j hj).1] at heq
      cases heq
    | true => exact hij (hs.slotInjective i j d h.used hj h.directory heq.symm)
  constructor
  · rw [hd.used, Function.update_of_ne hij, h.used]
  · rw [Kernel.directoryOf, hd.processes, Function.update_of_ne hij]
    exact h.directory
  · rw [hd.directories _ hdir, h.pages]
  · rw [hd.processes, Function.update_of_ne hij, h.memory]

theorem congr {r : DirectoryRef} (h : Occupies s i d pages memory)
    (hpaging : s'.paging = { s.paging with cr3 := r })
    (hused : s'.processListUsed = s.processListUsed)
    (hdir : s'.directoryOf i = s.directoryOf i)
    (hmemory : (s'.processList i).memory = (s.processList i).memory) :
    Occupies s' i d pages memory where
  used := by rw [hused, h.used]
  directory := by rw [hdir, h.directory]
  pages := by rw [hpaging, directory_withCr3, h.pages]
  memory := by rw [hmemory, h.memory]

theorem step {event : Event} (h : Occupies s i d pages memory) (hs : Isolated s)
    (hstep : OtherStep i s event s') : Occupies s' i d pages memory := by
  obtain ⟨hstep, hspare⟩ := hstep
  have hdestroy : ∀ {pid flags b}, event.victim s = some pid →
      processDestroy pid flags s = .ok (b, s') → Occupies s' i d pages memory := by
    intro pid flags b hvictim hd
    rcases hs.destroy_cases hd with ⟨-, rfl⟩ | ⟨j, hj, hd⟩
    · exact h
    · refine h.destroyed hs hd ?_
      rintro rfl
      exact hspare pid hvictim hj
  cases event with
  | create fs request =>
    obtain ⟨code, hcreate⟩ := map_snd_eq_ok hstep
    cases hs.create_outcome hcreate with
    | refused => exact h
    | unreadable j d' t answer hj ht =>
      exact (h.claimed hs hj.unused ht).congr rfl rfl rfl rfl
    | loaded j d' t stores hj ht =>
      exact (h.claimed hs hj.unused ht).congr rfl rfl
        (directoryOf_initializeProcess request j i _) (memory_initializeProcess request j i _)
  | terminate flags =>
    obtain ⟨b, hd⟩ := map_snd_eq_ok hstep
    exact hdestroy rfl hd
  | kill pid flags =>
    obtain ⟨b, hd⟩ := map_snd_eq_ok hstep
    exact hdestroy rfl hd
  | tick ctx =>
    obtain ⟨handed, htick⟩ := map_snd_eq_ok hstep
    obtain ⟨t, j, hsaved, -, -, -, rfl⟩ := timerTick_outcome htick
    have hpaging : (switchTo j t).paging = { s.paging with cr3 := t.directoryOf j } := by
      rw [← hsaved.paging]
      rfl
    refine h.congr hpaging hsaved.used ?_ ?_
    · rw [directoryOf_switchTo, hsaved.directoryOf]
    · rw [memory_switchTo, hsaved.memory]

end Occupies

theorem Occupies.inUse {s : Kernel} {i : Fin 16} {d : Fin 32} {pages : PageDirectory}
    {memory : ProcessMemory} (h : Occupies s i d pages memory) (hs : Isolated s) :
    s.paging.InUse (.entry d) := by
  obtain ⟨d', hd', hused⟩ := hs.slotDirectory i h.used
  rw [h.directory] at hd'
  rw [hd']
  exact hused

/-- A destruction gives back the frames that the directory holds, when all of its pages are
recorded. -/
theorem Occupies.destroy {s : Kernel} {i : Fin 16} {d : Fin 32} {pages : PageDirectory}
    {memory : ProcessMemory} (h : Occupies s i d pages memory) (hs : Isolated s)
    (hrecorded : ∀ p, (pages p).lowerAddress ≠ 0 → ∃ k, memory.dataVirtualAddrUsed k = true ∧
      upperBits (memory.virtualAddrUsed k) = p) (flags : Fin 8 → PageDirectoryEntryFlag) :
    ∃ s', processDestroy (UInt32.ofNat i) flags s = .ok (true, s') ∧ Destroyed s s' i ∧
      s'.paging.pageDirectoryList d = (fun _ => .zero) ∧
      ∀ f, s'.paging.pageFrameMap f = true ↔
        s.paging.pageFrameMap f = true ∧ ¬Holds s.paging (.entry d) f := by
  obtain ⟨s', heq, hd⟩ := processDestroy_eq hs.frames (ofNat_slot_toNat i) (hs.owns i) flags
  obtain ⟨t, ht, -, -, -, hmap⟩ := freePageFrames_eq (s.processList i).memory flags
    (List.finRange 8) hs.frames (h.inUse hs)
  have hpaging : s'.paging = t.dropped d := by
    have hlt : (UInt32.ofNat i).toNat < 16 := by
      rw [ofNat_slot_toNat]
      exact i.isLt
    have hindex : (⟨_, hlt⟩ : Fin 16) = i := Fin.ext (ofNat_slot_toNat i)
    have hdir : (s.processList i).context.pageDirectoryVirtualAddr = .entry d := h.directory
    rw [processDestroy, dif_pos hlt, hindex] at heq
    dsimp only at heq
    rw [hdir, ht] at heq
    obtain ⟨-, rfl⟩ := Prod.mk.inj (Except.ok.inj heq)
    rfl
  refine ⟨s', heq, hd, ?_, fun f => ?_⟩
  · rw [hpaging]
    exact Function.update_self ..
  · rw [hpaging]
    apply (hmap f).trans (and_congr_right fun _ => not_congr ?_)
    rw [h.memory]
    constructor
    · rintro ⟨k, -, -, hk⟩
      exact ⟨_, hk⟩
    · rintro ⟨p, hp⟩
      have hlower := (target_eq_some.mp hp).1
      rw [← (target_eq_some.mp hp).2, h.pages] at hlower
      obtain ⟨k, hk, rfl⟩ := hrecorded p hlower
      exact ⟨k, List.mem_finRange k, hk, hp⟩

theorem Holds.marked {s : Paging} {r : DirectoryRef} {f : Fin 32} (h : Holds s r f)
    (hs : s.FramesOk) (hr : s.InUse r) : s.pageFrameMap f = true := by
  obtain ⟨p, hp⟩ := h
  obtain ⟨j, hj, hmarked⟩ := hs.exclusive.marked hr hp
  obtain rfl : j = f := Fin.ext hj
  exact hmarked

/-- No frame is held by two directories in use. -/
theorem Holds.unique {s : Paging} {r r' : DirectoryRef} {f : Fin 32} (h : Holds s r f)
    (h' : Holds s r' f) (hs : s.FramesOk) (hr : s.InUse r) (hr' : s.InUse r') : r = r' := by
  obtain ⟨p, hp⟩ := h
  obtain ⟨p', hp'⟩ := h'
  exact congrArg Prod.fst (hs.exclusive.injective hr hr' hp hp')

/-- The process has given back what it took exactly when its directory held the frames taken. -/
theorem released_iff {s s₁ s₂ s₃ : Kernel} {i : Fin 16} {d : Fin 32} {pages : PageDirectory}
    {memory : ProcessMemory} (hfree : s.paging.pageDirectoryUsed d = false)
    (hused : s₁.paging.pageDirectoryUsed = Function.update s.paging.pageDirectoryUsed d true)
    (h₁ : Occupies s₁ i d pages memory) (h₂ : Occupies s₂ i d pages memory) (hs₂ : Isolated s₂)
    (hd : Destroyed s₂ s₃ i) (hzero : s₃.paging.pageDirectoryList d = fun _ => .zero)
    (hmap : ∀ f, s₃.paging.pageFrameMap f = true ↔
      s₂.paging.pageFrameMap f = true ∧ ¬Holds s₂.paging (.entry d) f) :
    Released s s₁ s₂ s₃ i ↔ HoldsTaken s.paging s₁.paging (.entry d) := by
  have hsame : ∀ f, Holds s₂.paging (.entry d) f ↔ Holds s₁.paging (.entry d) f := by
    intro f
    refine exists_congr fun p => ?_
    rw [target_congr (by rw [h₁.pages, h₂.pages])]
  have hin := h₂.inUse hs₂
  constructor
  · intro hreleased f
    rw [← hsame f]
    constructor
    · intro hf
      by_contra hno
      have hmarked := (hmap f).mpr ⟨hreleased.held f hf, hno⟩
      rw [hreleased.frames f, if_pos hf] at hmarked
      cases hmarked
    · intro hholds
      by_contra hf
      have hmarked := hreleased.frames f
      rw [if_neg hf, hholds.marked hs₂.frames hin] at hmarked
      exact ((hmap f).mp hmarked).2 hholds
  · intro htaken
    have hheld : ∀ f ∈ framesTaken s.paging s₁.paging, Holds s₂.paging (.entry d) f :=
      fun f hf => (hsame f).mpr ((htaken f).mp hf)
    have hmarked : ∀ f ∈ framesTaken s.paging s₁.paging, s₂.paging.pageFrameMap f = true :=
      fun f hf => (hheld f hf).marked hs₂.frames hin
    have hframes : ∀ f, s₃.paging.pageFrameMap f =
        if f ∈ framesTaken s.paging s₁.paging then false else s₂.paging.pageFrameMap f := by
      intro f
      split_ifs with hf
      · exact Bool.eq_false_of_not_eq_true fun hf₃ => ((hmap f).mp hf₃).2 (hheld f hf)
      · rw [Bool.eq_iff_iff, hmap f]
        exact and_iff_left fun hholds => hf ((htaken f).mpr ((hsame f).mp hholds))
    constructor
    case held => exact hmarked
    case frames => exact hframes
    case count =>
      rw [hd.frames.count, hs₂.frames.count]
      exact clearCount_return_all (Finset.subset_univ _) hmarked hframes
    case directory =>
      intro d' hd' hd'₁
      have hdd : d' = d := by
        by_contra hne
        rw [hused, Function.update_of_ne hne, hd'] at hd'₁
        cases hd'₁
      subst d'
      refine ⟨Bool.eq_false_of_not_eq_true fun hd₃ => ?_, hzero⟩
      exact ((hd.inUse (.entry d)).mp hd₃).2 h₂.directory.symm
    case directories =>
      intro d' hd'
      have hdd : d' ≠ d := by
        rintro rfl
        rw [hused, Function.update_self, hfree] at hd'
        cases hd'
      have hne : DirectoryRef.entry d' ≠ s₂.directoryOf i := by
        rw [h₂.directory]
        exact fun heq => hdd (DirectoryRef.entry.inj heq)
      refine ⟨?_, hd.directories (.entry d') hne⟩
      rw [Bool.eq_iff_iff]
      exact (hd.inUse (.entry d')).trans (and_iff_left hne)
    case slot => rw [hd.used, Function.update_self]
    case others =>
      intro j hj
      rw [hd.used, hd.processes, Function.update_of_ne hj, Function.update_of_ne hj]
      exact ⟨rfl, rfl⟩
    case unharmed =>
      intro j f hj hjused hholds
      obtain ⟨d', hd', hd'used⟩ := hs₂.slotDirectory j hjused
      rw [hd'] at hholds
      refine (hmap f).mpr ⟨hholds.marked hs₂.frames hd'used, fun hown => hj ?_⟩
      have heq : DirectoryRef.entry d' = .entry d := hholds.unique hown hs₂.frames hd'used hin
      exact hs₂.slotInjective j i d hjused h₂.used (hd'.trans heq) h₂.directory

/-- The directory of a created process leads to frames at its two recorded pages only. -/
theorem ClaimedPages.recorded {s s' : Paging} {d : Fin 32} {buf : UInt32}
    (h : ClaimedPages s d buf s') {p : Fin 1024}
    (hp : (s'.directory (.entry d) p).lowerAddress ≠ 0) :
    ∃ k, (twoPages buf).dataVirtualAddrUsed k = true ∧
      upperBits ((twoPages buf).virtualAddrUsed k) = p := by
  by_cases hbuf : p = upperBits buf
  · exact ⟨0, rfl, hbuf.symm⟩
  · by_cases hstack : p = upperBits userStackTop
    · exact ⟨1, rfl, hstack.symm⟩
    · rw [h.entry_of_ne hbuf hstack] at hp
      exact absurd (freshDirectory_lowerAddress p) hp

theorem Isolated.release_iff {s s₁ s₂ : Kernel} (hs : Isolated s) {fs : Storage}
    {request : DriverRequest} {i : Fin 16} (hi : processListGetInactiveIndex s = some i)
    (hcreate : processCreateUserProcess fs request s = .ok (processCreateSuccess, s₁))
    (hrun : Run (OtherStep i) s₁ s₂) (flags : Fin 8 → PageDirectoryEntryFlag) :
    (∃ s₃, processDestroy (UInt32.ofNat i) flags s₂ = .ok (true, s₃) ∧
        Released s s₁ s₂ s₃ i) ↔
      upperBits request.buf ≠ upperBits userStackTop ∨ s.paging.freePageFrameCount ≤ 2 := by
  have hs₁ := hs.create hcreate
  obtain ⟨j, d, t, stores, hj, ht, -, -, rfl⟩ := hs.create_success hcreate
  obtain rfl : i = j := Option.some.inj (hi.symm.trans hj.slot)
  have h₁ : Occupies (initializeProcess request i (t.setCr3 s.paging.cr3)) i d
      (t.paging.directory (.entry d)) (twoPages request.buf) := by
    have hclaimed : Occupies t i d (t.paging.directory (.entry d)) (twoPages request.buf) :=
      ⟨by rw [ht.used, Function.update_self], ht.directory, rfl, ht.memory⟩
    exact hclaimed.congr rfl rfl (directoryOf_initializeProcess request i i _)
      (memory_initializeProcess request i i _)
  obtain ⟨hs₂, h₂⟩ := hrun.invariant (I := fun s => Isolated s ∧ Occupies s i d
    (t.paging.directory (.entry d)) (twoPages request.buf)) ⟨hs₁, h₁⟩
    fun _ _ _ hu hstep => ⟨hu.1.step hstep.1, hu.2.step hu.1 hstep⟩
  obtain ⟨s₃, heq, hd, hzero, hmap⟩ := h₂.destroy hs₂ (fun p hp => ht.pages.recorded hp) flags
  have hused : (initializeProcess request i (t.setCr3 s.paging.cr3)).paging.pageDirectoryUsed =
      Function.update s.paging.pageDirectoryUsed d true := ht.pages.used
  have hiff := released_iff ht.pages.1 hused h₁ h₂ hs₂ hd hzero hmap
  have hholds : HoldsTaken s.paging (initializeProcess request i (t.setCr3 s.paging.cr3)).paging
      (.entry d) ↔ upperBits request.buf ≠ upperBits userStackTop ∨ s.paging.allocatable < 2 :=
    ht.pages.holdsTaken_iff
  have hfew : s.paging.freePageFrameCount ≤ 2 ↔ s.paging.allocatable < 2 := by
    have htwo : (2 : UInt32).toNat = 2 := rfl
    rw [UInt32.le_iff_toNat_le, hs.frames.countOk.count_eq, htwo]
    omega
  rw [hfew, ← hholds]
  constructor
  · rintro ⟨s₃', heq', hreleased⟩
    obtain ⟨-, rfl⟩ := Prod.mk.inj (Except.ok.inj (heq.symm.trans heq'))
    exact hiff.mp hreleased
  · intro h
    exact ⟨s₃, heq, hiff.mpr h⟩

/-- Whatever other processes come and go in between, a destruction gives back exactly what the
creation took, unless the executable was loaded into the page of the stack with two frames left. -/
theorem destroy_releases_iff {s s₁ s₂ : Kernel} (hs : Reachable s) {fs : Storage}
    {request : DriverRequest} {i : Fin 16} (hi : processListGetInactiveIndex s = some i)
    (hcreate : processCreateUserProcess fs request s = .ok (processCreateSuccess, s₁))
    (hrun : Run (OtherStep i) s₁ s₂) (flags : Fin 8 → PageDirectoryEntryFlag) :
    (∃ s₃, processDestroy (UInt32.ofNat i) flags s₂ = .ok (true, s₃) ∧
        Released s s₁ s₂ s₃ i) ↔
      upperBits request.buf ≠ upperBits userStackTop ∨ s.paging.freePageFrameCount ≤ 2 :=
  hs.isolated.release_iff hi hcreate hrun flags

theorem destroy_releases_note : ∃ s₁ s₂ s₃,
    processCreateUserProcess noteStorage noteProgram kernelStart = .ok (processCreateSuccess, s₁) ∧
    processCreateUserProcess noteStorage noteProgram s₁ = .ok (processCreateSuccess, s₂) ∧
    processDestroy 0 (fun _ => .zero) s₂ = .ok (true, s₃) ∧ Released kernelStart s₁ s₂ s₃ 0 := by
  obtain ⟨s₁, s₂, hcreate, hcreate', -⟩ := create_two_notes noteStorage_holdsNote
  have hrun : Run (OtherStep 0) s₁ s₂ := (Run.refl s₁).tail ⟨.create hcreate', by rintro _ ⟨⟩⟩
  obtain ⟨s₃, hdestroy, hreleased⟩ := (destroy_releases_iff reachable_kernelStart (i := 0) rfl hcreate
    hrun fun _ => .zero).mpr (.inl (by decide))
  exact ⟨s₁, s₂, s₃, hcreate, hcreate', hdestroy, hreleased⟩

def stackProgram : DriverRequest := { noteProgram with buf := 0xBFC00000 }

/-- The frame given to the executable is lost. -/
theorem stack_page_leaks : ∃ s₁ s₂,
    processCreateUserProcess noteStorage stackProgram kernelStart = .ok (processCreateSuccess, s₁) ∧
    processDestroy 0 (fun _ => .zero) s₁ = .ok (true, s₂) ∧
    ¬Released kernelStart s₁ s₁ s₂ 0 := by
  have hadmitted : Admitted stackProgram kernelStart 0 :=
    ⟨by decide, by decide, kernelStart_isolated.pagingAllocateCheck noteProgram_pages,
      noteProgram_pages, rfl⟩
  obtain ⟨c, c', hread⟩ := noteStorage_holdsNote
  have hloads : Loads noteStorage stackProgram kernelStart.paging.allocatable := by
    refine ⟨_, hread 0xBFC00000 4096 le_rfl, fun st hst k hk => .inl (.inl ⟨Fin.ext ?_, by decide⟩)⟩
    have hunit : clusterSize.toNat = 2048 := rfl
    have hbase : (0xBFC00000 : UInt32).toNat = 0x2FF * 2 ^ 22 := rfl
    have hpage : (upperBits stackProgram.buf : ℕ) = 0x2FF := rfl
    rw [hpage, upperBits_val]
    rcases List.mem_pair.mp hst with rfl | rfl
    · rw [UInt32.toNat_add, UInt32.toNat_ofNat', hbase]
      omega
    · rw [UInt32.toNat_add, UInt32.toNat_add, UInt32.toNat_ofNat', hbase, hunit]
      omega
  obtain ⟨s₁, hcreate⟩ := (hadmitted.create_success_iff kernelStart_isolated).mpr hloads
  have hs₁ := kernelStart_isolated.create hcreate
  obtain ⟨s₂, hdestroy, -⟩ := processDestroy_eq hs₁.frames (ofNat_slot_toNat 0) (hs₁.owns 0)
    fun _ => .zero
  refine ⟨s₁, s₂, hcreate, hdestroy, fun hreleased => ?_⟩
  rcases (kernelStart_isolated.release_iff (i := 0) rfl hcreate (Run.refl s₁) fun _ => .zero).mp
    ⟨s₂, hdestroy, hreleased⟩ with hpage | hfew
  · exact hpage (by decide)
  · exact absurd hfew (by decide)

end Os2024.Process
