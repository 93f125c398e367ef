import Os2024.Interrupts.Atomicity
import Os2024.Library.CutRuns

/-! # Requests of the timer and the keyboard

Once a process runs, the kernel sends the chips nothing but ends of interrupts. A
request that a device holds stays at the first chip, through any run of programs and
handlers, until the processor takes the interrupt that belongs to it. A second request
of the same line before that is not told from the first.
-/

namespace Os2024.Interrupts
open Library.CallTrees Library.Runs Process FileSystem

variable {π : Type} {I : Controller π}

/-- Accesses after which the first chip still has its requests. -/
def KeepsRequests (c : PortCall) : Prop :=
  KernelWord c ∧ c ≠ .outb pic1Command (icw1Init ||| icw1Icw4)

theorem keepsRequests_of_not_onPics {c : PortCall} (h : ¬OnPics c) : KeepsRequests c := by
  refine ⟨kernelWord_of_not_onPics h, ?_⟩
  rintro rfl
  exact h (.inl rfl)

theorem picAck_keepsRequests (irq : UInt8) : (picAck irq).Uses KeepsRequests := by
  have hmaster : KeepsRequests (.outb pic1Command picAckWord) :=
    ⟨kernelWord_outb fun _ => .inr rfl, fun h => absurd (PortCall.outb.inj h).2 (by decide)⟩
  have hslave : KeepsRequests (.outb pic2Command picAckWord) :=
    ⟨kernelWord_outb fun _ => .inr rfl, fun h => absurd (PortCall.outb.inj h).1 (by decide)⟩
  rw [picAck]
  split_ifs
  · exact ⟨hslave, fun _ => ⟨hmaster, fun _ => trivial⟩⟩
  · exact ⟨hmaster, fun _ => trivial⟩

def LeavesRequests {α : Type} (p : KernelProg α) : Prop :=
  p.Uses fun c => ∀ d, c = .port d → KeepsRequests d

theorem leavesRequests_ports {α : Type} {p : PortProg α} (h : p.Uses KeepsRequests) :
    LeavesRequests (ports p) := by
  refine (ports_uses h).mono ?_
  rintro _ ⟨d, rfl, hd⟩ d' hd'
  exact KernelCall.port.inj hd' ▸ hd

theorem leavesRequests_perform {c : KernelCall} (h : ∀ d, c ≠ .port d) : LeavesRequests (perform c) :=
  .perform fun d hd => absurd hd (h d)

theorem syscall_leavesRequests {call : SystemCall} (admissible : call.Admissible) :
    LeavesRequests (syscall call) := by
  have hstores : LeavesRequests (storeAll call.stores) := storeAll_uses (by rintro addr d ⟨⟩) _
  have hservice : LeavesRequests call.service.code := by
    rw [SystemCall.Admissible] at admissible
    cases hservice : call.service with
    | process event => exact leavesRequests_perform (by rintro d ⟨⟩)
    | device code =>
      rw [hservice] at admissible
      exact leavesRequests_ports (admissible.mono fun _ => keepsRequests_of_not_onPics)
  exact hservice.bind fun _ => hstores

theorem mainInterruptHandler_leavesRequests (i : Fin 64) (frame : Context) {call : SystemCall}
    (admissible : call.Admissible) : LeavesRequests (mainInterruptHandler i frame call) := by
  rw [mainInterruptHandler]
  split_ifs
  · refine (leavesRequests_perform (c := .save frame) (by rintro d ⟨⟩)).bind fun _ => ?_
    refine (leavesRequests_ports (picAck_keepsRequests irqTimer)).bind fun _ => ?_
    exact (leavesRequests_perform (c := .switch) (by rintro d ⟨⟩)).bind fun _ => trivial
  · have hread : KeepsRequests (.inb keyboardDataPort) := ⟨by rintro data ⟨⟩, by rintro ⟨⟩⟩
    have hkeyboard : (do let _scancode ← inb keyboardDataPort; picAck 1 : PortProg Unit).Uses
        KeepsRequests := ⟨hread, fun _ => picAck_keepsRequests 1⟩
    exact (leavesRequests_ports hkeyboard).bind fun _ => trivial
  · exact (syscall_leavesRequests admissible).bind fun _ => trivial
  · trivial

/-- Once a process has been started, only such code is on the stack. -/
def StackLeavesRequests (m : Processor π) : Prop :=
  m.user ≠ none → ∀ f ∈ m.stack, LeavesRequests f.rest

section Requests
variable {isrStubTable : Fin 64 → UInt32} {m m' : Processor π}

theorem StackLeavesRequests.entered (h : StackLeavesRequests m) {vector : UInt8} {p : π}
    {frame : Context} {call : SystemCall} (admissible : call.Admissible)
    (enters : Enters isrStubTable vector frame call { m with pics := p } m') :
    StackLeavesRequests m' := by
  obtain ⟨i, -, -, rfl⟩ := enters
  intro huser f hf
  rcases List.mem_cons.mp hf with rfl | hf
  · exact mainInterruptHandler_leavesRequests i frame admissible
  · exact h huser f hf

theorem StackLeavesRequests.step (h : StackLeavesRequests m) {e : ProcessorEvent}
    (hstep : ContainedStep I isrStubTable m e m') : StackLeavesRequests m' := by
  obtain ⟨hcontained, hstep⟩ := hstep
  cases hstep with
  | raise raised => exact h
  | withdraw withdrawn => exact h
  | accept enabled taken interrupted admissible enters => exact h.entered admissible enters
  | software program user admissible enters => exact h.entered (p := m.pics) admissible enters
  | fault interrupted admissible enters => exact h.entered (p := m.pics) admissible enters
  | instruction program user kept =>
    intro _ f hf
    rw [program] at hf
    cases hf
  | @call flag c next below a t code steps =>
    intro huser f hf
    have hcode := h huser
    rw [code] at hcode
    rcases List.mem_cons.mp hf with rfl | hf
    · exact (hcode _ List.mem_cons_self).2 a
    · exact hcode f (List.mem_cons_of_mem _ hf)
  | resume code =>
    intro huser f hf
    have hcode := h huser
    rw [code] at hcode
    exact hcode f (List.mem_cons_of_mem _ hf)
  | context code =>
    intro _ f hf
    cases hf
  | escape m' code escapes => exact absurd rfl hcontained

end Requests

section Kept
variable {isrStubTable : Fin 64 → UInt32} {m m' : Processor π} {n : Fin 8}

theorem Orderly.taken {frozen : Prop} (hI : I.Spec) (h : Orderly I frozen m) {vector : UInt8} {p : π}
    (enabled : m.enabled = true) (taken : I.accept m.pics vector p)
    (hn : vector ≠ pic1Offset + UInt8.ofNat n) (hrequest : I.requested m.pics n = true) :
    I.requested p n = true := by
  have hkept : ∀ {lines : Fin 8 → Bool}, Listening lines (I.registers m.pics) → lines 2 = false →
      I.requested p n = true := by
    intro lines hlisten hcascade
    rcases hlisten.accept hI hcascade taken with ⟨k, -, rfl, htakes⟩ | ⟨-, -, hkeeps⟩
    · refine htakes.keeps n ?_ hrequest
      rintro rfl
      exact hn rfl
    · exact hkeeps n trivial hrequest
  rcases h.of_enabled enabled with ⟨-, -, -, -, -, hlisten⟩ | ⟨-, lines, -, -, hlisten, hcascade, -⟩
  · exact hkept hlisten rfl
  · exact hkept hlisten hcascade

theorem requested_call (hI : I.Spec) {c : KernelCall} (hc : ∀ d, c = .port d → KeepsRequests d)
    {s t : Core π} {a : c.Answer} (hstep : c.Steps I s a t) (h : I.requested s.pics n = true) :
    I.requested t.pics n = true := by
  obtain ⟨hpics | ⟨d, b, hd, haccess⟩, -⟩ := hstep.frame
  · rw [hpics]
    exact h
  · obtain ⟨hword, hne⟩ := hc d hd
    exact hI.keeps_access hword hne haccess n trivial h

structure Waiting (I : Controller π) (n : Fin 8) (m : Processor π) : Prop where
  orderly : Orderly I True m
  stack : StackLeavesRequests m
  started : m.user ≠ none
  requested : I.requested m.pics n = true

/-- Neither does the processor take the interrupt of the line, nor the device let go of it. -/
def Spares (n : Fin 8) (e : ProcessorEvent) : Prop :=
  e ≠ .accept (pic1Offset + UInt8.ofNat n) ∧ ∀ line : Fin 16, line.val = n.val → e ≠ .withdraw line

/-- The step lemma. -/
theorem Waiting.step (hI : I.Spec) (hstubs : Function.Injective isrStubTable) {e : ProcessorEvent}
    (h : Waiting I n m) (he : Spares n e) (hstep : ContainedStep I isrStubTable m e m') :
    Waiting I n m' := by
  have horderly := h.orderly.step hI hstubs hstep.guarded
  have hstack := h.stack.step hstep
  suffices hlast : m'.user ≠ none ∧ I.requested m'.pics n = true from
    ⟨horderly, hstack, hlast.1, hlast.2⟩
  obtain ⟨hcontained, hstep⟩ := hstep
  cases hstep with
  | raise raised => exact ⟨h.started, hI.keeps_raise raised n trivial h.requested⟩
  | withdraw withdrawn =>
    exact ⟨h.started, hI.keeps_withdraw withdrawn n (fun hline => he.2 _ hline.symm rfl) h.requested⟩
  | accept enabled taken interrupted admissible enters =>
    have hkept := h.orderly.taken hI enabled taken (fun hvector => he.1 (congrArg _ hvector)) h.requested
    obtain ⟨i, -, -, rfl⟩ := enters
    exact ⟨h.started, hkept⟩
  | software program user admissible enters =>
    obtain ⟨i, -, -, rfl⟩ := enters
    exact ⟨h.started, h.requested⟩
  | fault interrupted admissible enters =>
    obtain ⟨i, -, -, rfl⟩ := enters
    exact ⟨h.started, h.requested⟩
  | instruction program user kept => exact ⟨Option.some_ne_none _, h.requested⟩
  | @call flag c next below a t code steps =>
    have hcode := h.stack h.started
    rw [code] at hcode
    exact ⟨h.started, requested_call hI (hcode _ List.mem_cons_self).1 steps h.requested⟩
  | resume code => exact ⟨h.started, h.requested⟩
  | context code => exact ⟨Option.some_ne_none _, h.requested⟩
  | escape m' code escapes => exact absurd rfl hcontained

/-- The run lemma. -/
theorem Waiting.trace (hI : I.Spec) (hstubs : Function.Injective isrStubTable) {l : List ProcessorEvent}
    (h : Waiting I n m) (hl : ∀ e ∈ l, Spares n e)
    (htrace : Trace (ContainedStep I isrStubTable) m l m') : Waiting I n m' := by
  induction htrace with
  | nil => exact h
  | cons head tail ih =>
    exact ih (h.step hI hstubs (hl _ List.mem_cons_self) head)
      fun e he => hl e (List.mem_cons_of_mem _ he)

variable {fuel : ℕ} {buffer : DiskCall → Disk.Buffer} {fs : Storage} {p : π}

theorem atBoot_stackLeavesRequests :
    StackLeavesRequests (atBoot fuel buffer fs p) := fun h => absurd rfl h

/-- Once a process has been started, a request stays at the first chip through whatever devices,
programs, system calls and handlers do, until the processor takes the interrupt of its line or the
device lets go of it; and wherever a program runs in between that can be preempted, a requested timer or
keyboard means that one of their interrupts can be taken at once. -/
theorem request_stays (hI : I.Spec) (hstubs : Function.Injective isrStubTable)
    (hrun : Run (ContainedStep I isrStubTable) (atBoot fuel buffer fs p) m)
    (hstarted : m.user ≠ none) (hrequest : I.requested m.pics n = true)
    {l : List ProcessorEvent} (hl : ∀ e ∈ l, Spares n e)
    (htrace : Trace (ContainedStep I isrStubTable) m l m') :
    I.requested m'.pics n = true ∧
      (m'.stack = [] → n = 0 ∨ n = 1 → (∀ ctx, m'.user = some ctx → Preemptible ctx.eflags) →
        ∃ vector m'', (vector = 0x20 ∨ vector = 0x21) ∧
          ContainedStep I isrStubTable m' (.accept vector) m'') := by
  have horderly : Orderly I True m := (atBoot_orderly hI).run hI hstubs (guardedRun_of_run hrun)
  have hstack : StackLeavesRequests m := hrun.invariant atBoot_stackLeavesRequests
    fun _ _ _ h hstep => h.step hstep
  have hwaiting : Waiting I n m := ⟨horderly, hstack, hstarted, hrequest⟩
  have hm' := hwaiting.trace hI hstubs hl htrace
  refine ⟨hm'.requested, fun hempty hn hpreemptible => ?_⟩
  obtain ⟨pics, k, user, stack⟩ := m'
  obtain rfl : stack = [] := hempty
  obtain ⟨ctx, huser, -, -, hlisten⟩ := hm'.orderly.program_state rfl
  obtain rfl : user = some ctx := huser
  exact exists_accept hI hstubs (hpreemptible ctx rfl) hlisten hn hm'.requested

end Kept

/-- A key that is pressed before a timer interrupt and a system call is still waiting after them. -/
theorem request_stays_key : ∃ m m' l l',
    Run (ContainedStep Chips.controller someStubs) (bootFrom shellStorage.disk resetChips) m ∧
    Trace (ContainedStep Chips.controller someStubs) m
      (.accept 0x20 :: (l ++ .software 0x30 getChar :: l')) m' ∧
    m'.pics.master.requested 1 = true ∧ ∃ vector m'', (vector = 0x20 ∨ vector = 0x21) ∧
      ContainedStep Chips.controller someStubs m' (.accept vector) m'' := by
  obtain ⟨q, k, ctx, q', k', handed, l, l', hrun, -, hkey, htrace, hserving, hcode⟩ :=
    shell_session someStubs resetChips someStubs_injective
  have hspares : ∀ e ∈ .accept 0x20 :: (l ++ .software 0x30 getChar :: l'), Spares 1 e := by
    intro e he
    rcases List.mem_cons.mp he with rfl | he
    · exact ⟨fun h => absurd (ProcessorEvent.accept.inj h) (by decide), by rintro line - ⟨⟩⟩
    · rcases List.mem_append.mp he with he | he
      · rw [hcode e (List.mem_append_left _ he)]
        exact ⟨by rintro ⟨⟩, by rintro line - ⟨⟩⟩
      · rcases List.mem_cons.mp he with rfl | he
        · exact ⟨by rintro ⟨⟩, by rintro line - ⟨⟩⟩
        · rw [hcode e (List.mem_append_right _ he)]
          exact ⟨by rintro ⟨⟩, by rintro line - ⟨⟩⟩
  have hkept := request_stays (n := 1) Chips.controller_spec someStubs_injective hrun
    (Option.some_ne_none _) hkey hspares htrace
  obtain ⟨hrequest, htakes⟩ := hkept
  refine ⟨_, _, l, l', hrun, htrace, hrequest, htakes rfl (.inr rfl) fun c hc => ?_⟩
  exact Option.some.inj hc ▸ hserving.flags

end Os2024.Interrupts
