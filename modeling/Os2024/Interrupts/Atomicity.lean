import Os2024.Interrupts.BootRuns

/-! # Kernel code is not interrupted once a process runs

The runs of the processor, from the boot on. Besides spurious interrupts, which are
ignored, only the timer and the keyboard ever interrupt, and only programs or the part
of the boot that listens to the keyboard. So what programs see of the processes between
two pieces of kernel code is a reachable state, and no request of the timer stays
without an answer. A creation that cannot read its executable breaks this: the process
it leaves behind may run with interrupts disabled, and then for ever.
-/

namespace Os2024.Interrupts
open Library.CallTrees Library.Runs Process FileSystem

variable {π : Type} {I : Controller π}

def Started (frozen : Prop) : Return → View → Prop :=
  HandsOver fun ctx k => Sound frozen k ∧ FlagsOk frozen ctx.eflags

/-- A program runs, or kernel code that it has called or that has interrupted it; or the boot runs,
or the handler of the keyboard that has interrupted the boot. On top of these there may be the
handlers of interrupts that are ignored. -/
inductive Orderly (I : Controller π) (frozen : Prop) : Processor π → Prop
  | program {p : π} {k : Kernel} {ctx : Context} (flags : FlagsOk frozen ctx.eflags)
      (sound : Sound frozen k) (listening : Listening timerAndKeyboard (I.registers p)) :
      Orderly I frozen ⟨p, k, some ctx, []⟩
  | handler {p : π} {k : Kernel} {ctx : Context} {f : Frame} (flags : FlagsOk frozen ctx.eflags)
      (ensures : KernelEnsures I (Guarded frozen) Masked (Finished frozen) f.rest
        ⟨f.flag, k, I.registers p⟩) :
      Orderly I frozen ⟨p, k, some ctx, [f]⟩
  | boot {p : π} {k : Kernel} {f : Frame}
      (ensures : KernelEnsures I (Guarded frozen) BootSafe (Started frozen) f.rest
        ⟨f.flag, k, I.registers p⟩) :
      Orderly I frozen ⟨p, k, none, [f]⟩
  | nested {p : π} {k : Kernel} {v : View} {f g : Frame}
      (ensures : KernelEnsures I (Guarded frozen) Masked
        (fun r w => w = { v with flag := false } ∧ r = .resume) f.rest ⟨f.flag, k, I.registers p⟩)
      (below : KernelEnsures I (Guarded frozen) BootSafe (Started frozen) g.rest
        { v with flag := g.flag }) :
      Orderly I frozen ⟨p, k, none, [f, g]⟩
  | ignored {m : Processor π} (below : Orderly I frozen m) :
      Orderly I frozen { m with stack := ⟨false, .ret .resume⟩ :: m.stack }

section Invariant
variable {frozen : Prop} {isrStubTable : Fin 64 → UInt32} {m m' : Processor π}

/-- The kernel does not notice what devices do. -/
theorem Orderly.unnoticed (h : Orderly I frozen m) {p : π} (hp : I.registers p = I.registers m.pics) :
    Orderly I frozen { m with pics := p } := by
  induction h with
  | program flags sound listening => exact .program flags sound (hp ▸ listening)
  | handler flags ensures =>
    rw [← hp] at ensures
    exact .handler flags ensures
  | boot ensures =>
    rw [← hp] at ensures
    exact .boot ensures
  | nested ensures below =>
    rw [← hp] at ensures
    exact .nested ensures below
  | ignored below ih => exact .ignored (ih hp)

/-- Disabled code on top of the stack is not interrupted. -/
theorem not_enabled {post : Return → View → Prop} {f : Frame} {k : Kernel} {p : π}
    (h : KernelEnsures I (Guarded frozen) Masked post f.rest ⟨f.flag, k, I.registers p⟩) :
    f.flag ≠ true := by
  have hmasked : f.flag = false := KernelEnsures.isSafe (s := ⟨f.flag, k, p⟩) h
  rw [hmasked]
  exact Bool.false_ne_true

theorem BootSafe.listening {v : View} (h : BootSafe v) (hflag : v.flag = true) :
    ∃ lines, Listening lines v.registers ∧ lines 2 = false ∧ ∀ n, lines n = true → n = 1 := by
  obtain ⟨lines, hlisten, hlines⟩ := h hflag
  refine ⟨lines, hlisten, Bool.eq_false_of_not_eq_true fun h => ?_, hlines⟩
  cases hlines 2 h

/-- What an interrupt finds: a program with the chip listening to the timer and the keyboard, or the
boot with the chip listening to the keyboard at most. -/
theorem Orderly.of_enabled (h : Orderly I frozen m) (enabled : m.enabled = true) :
    (∃ ctx, m.stack = [] ∧ m.user = some ctx ∧ Preemptible ctx.eflags ∧ Sound frozen m.kernel ∧
      Listening timerAndKeyboard (I.registers m.pics)) ∨
    ∃ f lines, m.stack = [f] ∧ m.user = none ∧ Listening lines (I.registers m.pics) ∧
      lines 2 = false ∧ (∀ n, lines n = true → n = 1) ∧
      KernelEnsures I (Guarded frozen) BootSafe (Started frozen) f.rest
        ⟨f.flag, m.kernel, I.registers m.pics⟩ := by
  cases h with
  | program flags sound listening =>
    exact .inl ⟨_, rfl, rfl, flags.preemptible (of_decide_eq_true enabled), sound, listening⟩
  | handler flags ensures => exact absurd enabled (not_enabled ensures)
  | @boot p k f ensures =>
    have hsafe : BootSafe ⟨f.flag, k, I.registers p⟩ := KernelEnsures.isSafe (s := ⟨f.flag, k, p⟩) ensures
    obtain ⟨lines, hlisten, hcascade, hlines⟩ := hsafe.listening enabled
    exact .inr ⟨f, lines, rfl, rfl, hlisten, hcascade, hlines, ensures⟩
  | nested ensures below => exact absurd enabled (not_enabled ensures)
  | ignored below => exact absurd enabled Bool.false_ne_true

/-- An interrupt that the processor takes is one of the timer or the keyboard, or a spurious one, and finds
a program; or one of the keyboard, or a spurious one, that finds the boot. -/
theorem Orderly.interrupt (hI : I.Spec) (h : Orderly I frozen m) {vector : UInt8} {p : π}
    (enabled : m.enabled = true) (taken : I.accept m.pics vector p) :
    (vector = 0x20 ∨ vector = 0x21 ∨ vector = 0x27) ∧ m.stack = [] ∨
      (vector = 0x21 ∨ vector = 0x27) ∧ m.user = none ∧ m.stack.length = 1 := by
  rcases h.of_enabled enabled with
    ⟨ctx, hstack, -, -, -, hlisten⟩ | ⟨f, lines, hstack, huser, hlisten, hcascade, hlines, -⟩
  · left
    rcases hlisten.accept hI rfl taken with ⟨n, hn, rfl, -⟩ | ⟨rfl, -⟩
    · rcases of_decide_eq_true hn with rfl | rfl
      · exact ⟨.inl rfl, hstack⟩
      · exact ⟨.inr (.inl rfl), hstack⟩
    · exact ⟨.inr (.inr rfl), hstack⟩
  · right
    rw [hstack]
    rcases hlisten.accept hI hcascade taken with ⟨n, hn, rfl, -⟩ | ⟨rfl, -⟩
    · obtain rfl := hlines n hn
      exact ⟨.inl rfl, huser, rfl⟩
    · exact ⟨.inr rfl, huser, rfl⟩

/-- The handlers of other vectors do nothing. -/
theorem Orderly.other (hstubs : Function.Injective isrStubTable) (h : Orderly I frozen m) {i : Fin 64}
    (hi : i ≠ 0x20 ∧ i ≠ 0x21 ∧ i ≠ 0x30) {frame : Context} {call : SystemCall}
    (enters : Enters isrStubTable (UInt8.ofNat i) frame call m m') : Orderly I frozen m' := by
  obtain rfl := Enters.eq hstubs enters
  rw [mainInterruptHandler_other frame call hi]
  exact .ignored h

theorem keyboard_orderly (hI : I.Spec) {lines : Fin 8 → Bool} {p p' : π}
    (hlisten : Listening lines (I.registers p)) (htakes : I.Takes 1 p p') (frame : Context)
    (call : SystemCall) (k : Kernel) (frozen : Prop) :
    KernelEnsures I (Guarded frozen) Masked (fun r v => v = ⟨false, k, I.registers p⟩ ∧ r = .resume)
      (mainInterruptHandler 0x21 frame call) ⟨false, k, I.registers p'⟩ := by
  rw [htakes.registers]
  exact ensures_keyboard frame call hI hlisten

theorem Orderly.accepted (hI : I.Spec) (hstubs : Function.Injective isrStubTable)
    (h : Orderly I frozen m) {vector : UInt8} {p : π} {frame : Context} {call : SystemCall}
    (enabled : m.enabled = true) (taken : I.accept m.pics vector p)
    (interrupted : m.stack = [] → m.user = some frame)
    (enters : Enters isrStubTable vector frame call { m with pics := p } m') : Orderly I frozen m' := by
  have hspurious : vector = 0x27 → I.registers p = I.registers m.pics → Orderly I frozen m' := by
    rintro rfl hp
    exact (h.unnoticed hp).other (i := 0x27) hstubs (by decide) enters
  rcases h.of_enabled enabled with
    ⟨ctx, hstack, huser, hctx, hsound, hlisten⟩ |
      ⟨f, lines, hstack, huser, hlisten, hcascade, hlines, hensures⟩
  · obtain ⟨pics, k, user, stack⟩ := m
    obtain rfl : stack = [] := hstack
    obtain rfl : user = some ctx := huser
    obtain rfl := Option.some.inj (interrupted rfl)
    rcases hlisten.accept hI rfl taken with ⟨n, hn, rfl, htakes⟩ | ⟨hvector, hp, -⟩
    · rcases of_decide_eq_true hn with rfl | rfl
      · obtain rfl := Enters.eq hstubs (i := 0x20) enters
        have htimer : KernelEnsures I (Guarded frozen) Masked (Finished frozen)
            (mainInterruptHandler 0x20 ctx call) ⟨false, k, (I.registers pics).serve 0⟩ :=
          ensures_timer ctx call hI hsound hlisten hctx
        rw [← htakes.registers] at htimer
        exact .handler (.inl hctx) htimer
      · obtain rfl := Enters.eq hstubs (i := 0x21) enters
        have hkeyboard := keyboard_orderly hI hlisten htakes ctx call k frozen
        refine .handler (.inl hctx) (hkeyboard.mono ?_)
        rintro r _ ⟨rfl, rfl⟩
        exact ⟨hsound, hlisten, fun _ h => by cases h⟩
    · exact hspurious hvector hp
  · obtain ⟨pics, k, user, stack⟩ := m
    obtain rfl : stack = [f] := hstack
    obtain rfl : user = none := huser
    rcases hlisten.accept hI hcascade taken with ⟨n, hn, rfl, htakes⟩ | ⟨hvector, hp, -⟩
    · obtain rfl := hlines n hn
      obtain rfl := Enters.eq hstubs (i := 0x21) enters
      have hkeyboard := keyboard_orderly hI hlisten htakes frame call k frozen
      exact .nested (v := ⟨f.flag, k, I.registers pics⟩) hkeyboard hensures
    · exact hspurious hvector hp

theorem Orderly.called (hI : I.Spec) (hstubs : Function.Injective isrStubTable) (h : Orderly I frozen m)
    {frame : Context} {call : SystemCall} (program : m.stack = []) (admissible : call.Admissible)
    (enters : Enters isrStubTable 0x30 frame call m m') : Orderly I frozen m' := by
  obtain rfl := Enters.eq hstubs (i := 0x30) enters
  cases h with
  | program flags sound listening =>
    exact .handler flags (ensures_syscall frame call hI sound listening admissible)
  | handler flags ensures => cases program
  | boot ensures => cases program
  | nested ensures below => cases program
  | ignored below => cases program

theorem other_of_fault (vector : Fin 32) : (⟨vector, by omega⟩ : Fin 64) ≠ 0x20 ∧
    (⟨vector, by omega⟩ : Fin 64) ≠ 0x21 ∧ (⟨vector, by omega⟩ : Fin 64) ≠ 0x30 := by
  refine ⟨?_, ?_, ?_⟩ <;> simp only [ne_eq, Fin.ext_iff] <;> omega

/-- The step lemma. -/
theorem Orderly.step (hI : I.Spec) (hstubs : Function.Injective isrStubTable) {e : ProcessorEvent}
    (h : Orderly I frozen m) (hstep : GuardedStep frozen I isrStubTable m e m') :
    Orderly I frozen m' := by
  obtain ⟨hnext, hcontained, hstep⟩ := hstep
  cases hstep with
  | raise raised => exact h.unnoticed (hI.registers_raise raised)
  | withdraw withdrawn => exact h.unnoticed (hI.registers_withdraw withdrawn)
  | accept enabled taken interrupted admissible enters =>
    exact h.accepted hI hstubs enabled taken interrupted enters
  | @software _ n ctx call program user admissible enters =>
    rw [softwareVector_initializeIdt] at enters
    by_cases hn : n = 0x30
    · rw [if_pos hn] at enters
      exact h.called hI hstubs program admissible enters
    · rw [if_neg hn] at enters
      exact h.other hstubs (i := 13) (by decide) enters
  | @fault _ vector frame call interrupted admissible enters =>
    exact h.other hstubs (other_of_fault vector) enters
  | instruction program user kept =>
    cases h with
    | program flags sound listening =>
      obtain rfl := Option.some.inj user
      exact .program (flags.of_instruction kept) sound listening
    | handler flags ensures => cases program
    | boot ensures => cases program
    | nested ensures below => cases program
    | ignored below => cases program
  | @call flag c next below a t code steps =>
    have hguard := hnext flag c next below code
    cases h with
    | program flags sound listening => cases code
    | handler flags ensures =>
      obtain ⟨rfl, rfl⟩ := List.cons.inj code
      exact .handler flags (KernelEnsures.next (s := ⟨flag, _, _⟩) ensures steps hguard)
    | boot ensures =>
      obtain ⟨rfl, rfl⟩ := List.cons.inj code
      exact .boot (KernelEnsures.next (s := ⟨flag, _, _⟩) ensures steps hguard)
    | nested ensures hbelow =>
      obtain ⟨rfl, rfl⟩ := List.cons.inj code
      exact .nested (KernelEnsures.next (s := ⟨flag, _, _⟩) ensures steps hguard) hbelow
    | ignored hbelow => cases code
  | resume code =>
    cases h with
    | program flags sound listening => cases code
    | @handler p k ctx f flags ensures =>
      obtain ⟨rfl, rfl⟩ := List.cons.inj code
      have hfinished := KernelEnsures.ended (s := ⟨_, k, p⟩) ensures
      exact .program flags hfinished.sound hfinished.listening
    | @boot p k f ensures =>
      obtain ⟨rfl, rfl⟩ := List.cons.inj code
      obtain ⟨ctx, hreturn, -⟩ := KernelEnsures.ended (s := ⟨_, k, p⟩) ensures
      cases hreturn
    | @nested p k v f g ensures hbelow =>
      obtain ⟨rfl, rfl⟩ := List.cons.inj code
      obtain ⟨hview, -⟩ := KernelEnsures.ended (s := ⟨_, k, p⟩) ensures
      obtain ⟨-, hkernel, hregisters⟩ := View.mk.inj hview
      have hback : ({ v with flag := g.flag } : View) = ⟨g.flag, k, I.registers p⟩ :=
        congrArg₂ (View.mk g.flag) hkernel.symm hregisters.symm
      exact .boot (hback ▸ hbelow)
    | ignored hbelow =>
      obtain ⟨-, rfl⟩ := List.cons.inj code
      exact hbelow
  | context code =>
    cases h with
    | program flags sound listening => cases code
    | @handler p k ctx f flags ensures =>
      obtain ⟨rfl, rfl⟩ := List.cons.inj code
      have hfinished := KernelEnsures.ended (s := ⟨_, k, p⟩) ensures
      exact .program (hfinished.flags _ rfl) hfinished.sound hfinished.listening
    | @boot p k f ensures =>
      obtain ⟨rfl, rfl⟩ := List.cons.inj code
      obtain ⟨ctx, hreturn, ⟨hsound, hctx⟩, hlisten⟩ := KernelEnsures.ended (s := ⟨_, k, p⟩) ensures
      exact .program (Return.context.inj hreturn ▸ hctx) hsound hlisten
    | @nested p k v f g ensures hbelow =>
      obtain ⟨rfl, rfl⟩ := List.cons.inj code
      obtain ⟨-, hreturn⟩ := KernelEnsures.ended (s := ⟨_, k, p⟩) ensures
      cases hreturn
    | ignored hbelow => cases code
  | escape m' code escapes => exact absurd rfl hcontained

end Invariant

section Runs
variable {frozen : Prop} {isrStubTable : Fin 64 → UInt32} {m m' : Processor π} {fuel : ℕ}
  {buffer : DiskCall → Disk.Buffer} {fs : Storage} {p : π}

theorem atBoot_orderly (hI : I.Spec) : Orderly I frozen (atBoot fuel buffer fs p) :=
  .boot (ensures_boot hI fuel buffer (I.registers p)
    fun _ _ _ _ hguard hcreate hswitch => Sound.start hguard hcreate hswitch)

/-- The run lemma. -/
theorem Orderly.run (hI : I.Spec) (hstubs : Function.Injective isrStubTable) (h : Orderly I frozen m)
    (hrun : Run (GuardedStep frozen I isrStubTable) m m') : Orderly I frozen m' :=
  hrun.invariant h fun _ _ _ hm hstep => hm.step hI hstubs hstep

/-- Without a condition on the creations, programs may be frozen. -/
theorem ContainedStep.guarded {e : ProcessorEvent} (h : ContainedStep I isrStubTable m e m') :
    GuardedStep True I isrStubTable m e m' := ⟨fun _ _ _ _ _ => .inl trivial, h⟩

theorem guardedRun_of_run (hrun : Run (ContainedStep I isrStubTable) m m') :
    Run (GuardedStep True I isrStubTable) m m' := hrun.mono fun _ _ _ => ContainedStep.guarded

theorem Orderly.program_state (h : Orderly I frozen m) (hstack : m.stack = []) :
    ∃ ctx, m.user = some ctx ∧ FlagsOk frozen ctx.eflags ∧ Sound frozen m.kernel ∧
      Listening timerAndKeyboard (I.registers m.pics) := by
  cases h with
  | @program p k ctx flags sound listening => exact ⟨ctx, rfl, flags, sound, listening⟩
  | handler flags ensures => cases hstack
  | boot ensures => cases hstack
  | nested ensures below => cases hstack
  | ignored below => cases hstack

/-- The stack but for the handlers that do nothing. -/
theorem Orderly.stack_length (h : Orderly I frozen m) : ∃ handlers code, m.stack = handlers ++ code ∧
    (∀ f ∈ handlers, f = ⟨false, .ret .resume⟩) ∧ code.length ≤ 2 := by
  induction h with
  | program flags sound listening => exact ⟨[], [], rfl, by simp, Nat.zero_le 2⟩
  | @handler p k ctx f flags ensures => exact ⟨[], [f], rfl, by simp, one_le_two⟩
  | @boot p k f ensures => exact ⟨[], [f], rfl, by simp, one_le_two⟩
  | @nested p k v f g ensures below => exact ⟨[], [f, g], rfl, by simp, le_refl 2⟩
  | ignored below ih =>
    obtain ⟨handlers, code, heq, hhandlers, hlength⟩ := ih
    refine ⟨⟨false, .ret .resume⟩ :: handlers, code, congrArg _ heq, fun f hf => ?_, hlength⟩
    rcases List.mem_cons.mp hf with rfl | hf
    · rfl
    · exact hhandlers f hf

/-- In every run from the boot in which no system call stores into the kernel's page and no kernel code
outside of its tables, whatever devices, programs and system calls do: between two pieces of kernel
code the processes are in a reachable state and no interrupt is in service; only the timer, the
keyboard and spurious interrupts come in, and once a process runs they interrupt no kernel code; and
but for handlers that do nothing, never more than two pieces of kernel code are on the stack. -/
theorem kernel_code_atomic (hI : I.Spec) (hstubs : Function.Injective isrStubTable)
    (hrun : Run (ContainedStep I isrStubTable) (atBoot fuel buffer fs p) m) :
    (m.stack = [] → (∃ ctx, m.user = some ctx) ∧ Reachable m.kernel ∧
      ∀ n, (I.registers m.pics).inService n = false) ∧
    (∀ vector m', ContainedStep I isrStubTable m (.accept vector) m' →
      (vector = 0x20 ∨ vector = 0x21 ∨ vector = 0x27) ∧ m.stack = [] ∨
        (vector = 0x21 ∨ vector = 0x27) ∧ m.user = none ∧ m.stack.length = 1) ∧
    ∃ handlers code, m.stack = handlers ++ code ∧
      (∀ f ∈ handlers, f = ⟨false, .ret .resume⟩) ∧ code.length ≤ 2 := by
  have hm : Orderly I True m := (atBoot_orderly hI).run hI hstubs (guardedRun_of_run hrun)
  refine ⟨fun hstack => ?_, fun vector m' hstep => ?_, hm.stack_length⟩
  · obtain ⟨ctx, huser, -, hsound, hlisten⟩ := hm.program_state hstack
    exact ⟨⟨ctx, huser⟩, hsound.reachable, hlisten.idle⟩
  · cases hstep.2 with
    | accept enabled taken interrupted admissible enters => exact hm.interrupt hI enabled taken

end Runs

/-- The shell from its boot to after a timer interrupt and a system call, with a key pressed. -/
theorem kernel_code_atomic_shell : ∃ m m' l l',
    Run (ContainedStep Chips.controller someStubs) (bootFrom shellStorage.disk resetChips) m ∧
    (∀ vector m₁, ContainedStep Chips.controller someStubs m (.accept vector) m₁ →
      vector = 0x20 ∨ vector = 0x21 ∨ vector = 0x27) ∧
    Trace (ContainedStep Chips.controller someStubs) m
      (.accept 0x20 :: (l ++ .software 0x30 getChar :: l')) m' ∧
    m'.stack = [] ∧ Reachable m'.kernel ∧ ∀ n, m'.pics.master.registers.inService n = false := by
  obtain ⟨q, k, ctx, q', k', handed, l, l', hrun, -, -, htrace, -, -⟩ :=
    shell_session someStubs resetChips someStubs_injective
  obtain ⟨-, hinterrupt, -⟩ := kernel_code_atomic Chips.controller_spec someStubs_injective hrun
  obtain ⟨hbetween, -, -⟩ :=
    kernel_code_atomic Chips.controller_spec someStubs_injective (hrun.trans htrace.run)
  obtain ⟨-, hreachable, hidle⟩ := hbetween rfl
  refine ⟨_, _, l, l', hrun, fun vector m₁ hstep => ?_, htrace, rfl, hreachable, hidle⟩
  rcases hinterrupt vector m₁ hstep with ⟨hvector, -⟩ | ⟨-, huser, -⟩
  · exact hvector
  · cases huser

/-- Kernel code that leaves interrupts disabled and returns to what it has interrupted. -/
structure GoesBack (p : KernelProg Return) : Prop where
  disabled : p.Uses fun c => c ≠ .sti
  returns : p.Returns fun r => r = .resume

theorem storeAll_uses {allowed : KernelCall → Prop} (hallowed : ∀ addr, allowed (.store addr))
    (addrs : List UInt32) : (storeAll addrs).Uses allowed := by
  induction addrs with
  | nil => trivial
  | cons addr addrs ih => exact Program.Uses.bind (.perform (hallowed addr)) fun _ => ih

theorem mainInterruptHandler_goesBack {i : Fin 64} (hi : i ≠ 0x20 ∧ i ≠ 0x21) (frame : Context)
    {call : SystemCall} (admissible : call.Admissible) :
    GoesBack (mainInterruptHandler i frame call) := by
  rw [mainInterruptHandler, if_neg hi.1, if_neg hi.2]
  by_cases hcall : i = 0x30
  · rw [if_pos hcall]
    have hservice : call.service.code.Uses fun c => c ≠ .sti := by
      rw [SystemCall.Admissible] at admissible
      cases hservice : call.service with
      | process event => exact Program.Uses.perform (by rintro ⟨⟩)
      | device code =>
        rw [hservice] at admissible
        refine (ports_uses admissible).mono ?_
        rintro _ ⟨d, rfl, -⟩ ⟨⟩
    have hsyscall : (syscall call).Uses fun c => c ≠ .sti :=
      hservice.bind fun _ => storeAll_uses (by rintro addr ⟨⟩) call.stores
    exact ⟨hsyscall.bind fun _ => trivial, (Program.Returns.any _).bind fun _ _ => rfl⟩
  · rw [if_neg hcall]
    exact ⟨trivial, rfl⟩

/-- A frozen program runs, or kernel code that it has called. -/
structure Stuck (m : Processor π) : Prop where
  program : ∃ ctx, m.user = some ctx ∧ Frozen ctx.eflags
  handlers : ∀ f ∈ m.stack, f.flag = false ∧ GoesBack f.rest

section Stuck
variable {isrStubTable : Fin 64 → UInt32} {m m' : Processor π}

theorem Stuck.not_enabled (h : Stuck m) : m.enabled ≠ true := by
  obtain ⟨ctx, huser, hfrozen⟩ := h.program
  rw [Processor.enabled]
  cases hstack : m.stack with
  | nil =>
    rw [huser]
    exact fun henabled => of_decide_eq_true henabled hfrozen.not_enabled
  | cons f below =>
    have hf := (h.handlers f (by rw [hstack]; exact List.mem_cons_self)).1
    dsimp only
    rw [hf]
    exact Bool.false_ne_true

theorem Stuck.entered (hstubs : Function.Injective isrStubTable) (h : Stuck m) {i : Fin 64}
    (hi : i ≠ 0x20 ∧ i ≠ 0x21) {frame : Context} {call : SystemCall}
    (admissible : call.Admissible)
    (enters : Enters isrStubTable (UInt8.ofNat i) frame call m m') : Stuck m' := by
  obtain rfl := Enters.eq hstubs enters
  refine ⟨h.program, fun f hf => ?_⟩
  rcases List.mem_cons.mp hf with rfl | hf
  · exact ⟨rfl, mainInterruptHandler_goesBack hi frame admissible⟩
  · exact h.handlers f hf

/-- The step lemma. -/
theorem Stuck.step (hstubs : Function.Injective isrStubTable) {e : ProcessorEvent} (h : Stuck m)
    (hstep : ContainedStep I isrStubTable m e m') : Stuck m' := by
  obtain ⟨hcontained, hstep⟩ := hstep
  cases hstep with
  | raise raised => exact ⟨h.program, h.handlers⟩
  | withdraw withdrawn => exact ⟨h.program, h.handlers⟩
  | accept enabled taken interrupted admissible enters => exact absurd enabled h.not_enabled
  | @software _ n ctx call program user admissible enters =>
    rw [softwareVector_initializeIdt] at enters
    by_cases hn : n = 0x30
    · rw [if_pos hn] at enters
      exact h.entered hstubs (i := 0x30) (by decide) admissible enters
    · rw [if_neg hn] at enters
      exact h.entered hstubs (i := 13) (by decide) admissible enters
  | @fault _ vector frame call interrupted admissible enters =>
    obtain ⟨h₀, h₁, -⟩ := other_of_fault vector
    exact h.entered hstubs ⟨h₀, h₁⟩ admissible enters
  | instruction program user kept =>
    obtain ⟨ctx, huser, hfrozen⟩ := h.program
    obtain rfl := Option.some.inj (huser.symm.trans user)
    have hflags : FlagsOk True _ := .inr ⟨trivial, hfrozen⟩
    exact ⟨⟨_, rfl, (kept hflags.level).trans hfrozen⟩, h.handlers⟩
  | @call flag c next below a t code steps =>
    have hhandlers := h.handlers
    rw [code] at hhandlers
    obtain ⟨hflag, hback⟩ := hhandlers _ List.mem_cons_self
    obtain rfl : flag = false := hflag
    refine ⟨h.program, fun f hf => ?_⟩
    rcases List.mem_cons.mp hf with rfl | hf
    · exact ⟨steps.frame.2 hback.disabled.1 rfl, hback.disabled.2 a, hback.returns a⟩
    · exact hhandlers f (List.mem_cons_of_mem _ hf)
  | resume code =>
    have hhandlers := h.handlers
    rw [code] at hhandlers
    exact ⟨h.program, fun f hf => hhandlers f (List.mem_cons_of_mem _ hf)⟩
  | context code =>
    have hhandlers := h.handlers
    rw [code] at hhandlers
    cases (hhandlers _ List.mem_cons_self).2.returns
  | escape m' code escapes => exact absurd rfl hcontained

/-- A request of the timer or the keyboard reaches a program that can be preempted. -/
theorem exists_accept (hI : I.Spec) (hstubs : Function.Injective isrStubTable) {p : π} {k : Kernel}
    {ctx : Context} (hctx : Preemptible ctx.eflags)
    (hp : Listening timerAndKeyboard (I.registers p)) {n : Fin 8} (hn : n = 0 ∨ n = 1)
    (hrequest : I.requested p n = true) :
    ∃ vector m', (vector = 0x20 ∨ vector = 0x21) ∧
      ContainedStep I isrStubTable ⟨p, k, some ctx, []⟩ (.accept vector) m' := by
  obtain ⟨line, q, hline, htaken⟩ := hp.exists_accept hI rfl (decide_eq_true hn) hrequest
  have hgate : ∃ i : Fin 64, (i = 0x20 ∨ i = 0x21) ∧ pic1Offset + UInt8.ofNat line = UInt8.ofNat i := by
    rcases of_decide_eq_true hline with rfl | rfl
    · exact ⟨0x20, .inl rfl, rfl⟩
    · exact ⟨0x21, .inr rfl, rfl⟩
  obtain ⟨i, hi, hvector⟩ := hgate
  obtain ⟨m', henters⟩ := exists_enters hstubs i ctx idleCall ⟨q, k, some ctx, []⟩
  rw [hvector] at htaken
  refine ⟨UInt8.ofNat i, m', ?_, by rintro ⟨⟩, ?_⟩
  · rcases hi with rfl | rfl
    · exact .inl rfl
    · exact .inr rfl
  · exact .accept (hctx.enabled p k) htaken (fun _ => rfl) idleCall_admissible henters

end Stuck

section Again
variable {isrStubTable : Fin 64 → UInt32} {m : Processor π} {fuel : ℕ}
  {buffer : DiskCall → Disk.Buffer} {fs : Storage} {p : π} {ctx : Context}

/-- Wherever a run from the boot has got to a program: an interrupt is taken at some later time of
some run exactly when the program can be preempted, and then a request of the timer or the
keyboard can be taken at once. Only a creation that could not read its executable ever lets a program
run that cannot be preempted. -/
theorem interrupted_again_iff (hI : I.Spec) (hstubs : Function.Injective isrStubTable)
    (hrun : Run (ContainedStep I isrStubTable) (atBoot fuel buffer fs p) m)
    (hstack : m.stack = []) (huser : m.user = some ctx) :
    ((∃ m₁ vector m₂, Run (ContainedStep I isrStubTable) m m₁ ∧
        ContainedStep I isrStubTable m₁ (.accept vector) m₂) ↔ Preemptible ctx.eflags) ∧
      (Preemptible ctx.eflags → ∀ n : Fin 8, n = 0 ∨ n = 1 → I.requested m.pics n = true →
        ∃ vector m', (vector = 0x20 ∨ vector = 0x21) ∧
          ContainedStep I isrStubTable m (.accept vector) m') ∧
      (Run (GuardedStep False I isrStubTable) (atBoot fuel buffer fs p) m →
        Preemptible ctx.eflags) := by
  have hm : Orderly I True m := (atBoot_orderly hI).run hI hstubs (guardedRun_of_run hrun)
  obtain ⟨pics, k, user, stack⟩ := m
  obtain rfl : stack = [] := hstack
  obtain rfl : user = some ctx := huser
  obtain ⟨_, hctx, hflags, -, hlisten⟩ := hm.program_state rfl
  obtain rfl := Option.some.inj hctx
  refine ⟨⟨?_, fun hpreemptible => ?_⟩, fun hpreemptible n hn => ?_, fun hguarded => ?_⟩
  · rintro ⟨m₁, vector, m₂, hrun₁, haccept⟩
    refine hflags.resolve_right fun hfrozen => ?_
    have hstart : Stuck (⟨pics, k, some ctx, []⟩ : Processor π) :=
      ⟨⟨ctx, rfl, hfrozen.2⟩, fun _ h => by cases h⟩
    have hstuck : Stuck m₁ := hrun₁.invariant hstart fun _ _ _ h hstep => h.step hstubs hstep
    cases haccept.2 with
    | accept enabled taken interrupted admissible enters => exact hstuck.not_enabled enabled
  · obtain ⟨q, hraise, hrequest⟩ := hI.exists_raise 1 pics
    have hraised : Listening timerAndKeyboard (I.registers q) :=
      (hI.registers_raise hraise).symm ▸ hlisten
    obtain ⟨vector, m₂, -, haccept⟩ :=
      exists_accept (k := k) hI hstubs hpreemptible hraised (.inr rfl) hrequest
    have hstep : ContainedStep I isrStubTable ⟨pics, k, some ctx, []⟩ (.raise _) ⟨q, k, some ctx, []⟩ :=
      ⟨by rintro ⟨⟩, .raise hraise⟩
    exact ⟨_, vector, m₂, (Run.refl _).tail hstep, haccept⟩
  · exact exists_accept hI hstubs hpreemptible hlisten hn
  · have hsound : Orderly I False _ := (atBoot_orderly hI).run hI hstubs hguarded
    obtain ⟨_, hctx, hflags, -⟩ := hsound.program_state rfl
    obtain rfl := Option.some.inj hctx
    exact hflags.resolve_right fun hfrozen => hfrozen.1

end Again

/-- The shell is interrupted, and again after a timer interrupt and a system call. The boot from a blank
drive gets to a program that never is. -/
theorem interrupted_again_iff_shell :
    (∃ m m' l l',
      Run (ContainedStep Chips.controller someStubs) (bootFrom shellStorage.disk resetChips) m ∧
      Trace (ContainedStep Chips.controller someStubs) m
        (.accept 0x20 :: (l ++ .software 0x30 getChar :: l')) m' ∧ m'.stack = [] ∧
      ∃ m₁ vector m₂, Run (ContainedStep Chips.controller someStubs) m' m₁ ∧
        ContainedStep Chips.controller someStubs m₁ (.accept vector) m₂) ∧
    ∃ m, Run (ContainedStep Chips.controller someStubs) (bootFrom blankStorage.disk resetChips) m ∧
      m.stack = [] ∧
      ∀ m₁ vector m₂, Run (ContainedStep Chips.controller someStubs) m m₁ →
        ¬ContainedStep Chips.controller someStubs m₁ (.accept vector) m₂ := by
  constructor
  · obtain ⟨q, k, ctx, q', k', handed, l, l', hrun, -, -, htrace, hserving, -⟩ :=
      shell_session someStubs resetChips someStubs_injective
    obtain ⟨hiff, -, -⟩ := interrupted_again_iff Chips.controller_spec someStubs_injective
      (hrun.trans htrace.run) rfl rfl
    exact ⟨_, _, l, l', hrun, htrace, rfl, hiff.mpr hserving.flags⟩
  · obtain ⟨q, k, ctx, hrun, hzero⟩ := boot_without_shell someStubs resetChips
    obtain ⟨hiff, -, -⟩ := interrupted_again_iff Chips.controller_spec someStubs_injective hrun rfl rfl
    refine ⟨_, hrun, rfl, fun m₁ vector m₂ hrun₁ haccept => ?_⟩
    have hpreemptible := hiff.mp ⟨m₁, vector, m₂, hrun₁, haccept⟩
    rw [hzero] at hpreemptible
    exact absurd hpreemptible (by decide)

end Os2024.Interrupts
