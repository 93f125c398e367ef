import Os2024.Interrupts.ProgramFlags

/-! # What kernel code ensures among the devices

Whatever devices do between its calls, each handler brings the processes from one
reachable state to another and leaves the interrupt controller ready for the next
interrupt, and the boot gets there in the first place. Only while the boot waits
for the drive are interrupts enabled, and only the keyboard can interrupt then.
-/

namespace Os2024.Interrupts
open Library.CallTrees Library.Runs Process FileSystem

variable {π : Type} {I : Controller π}

/-- The first chip passes on the requests of these lines, and nothing is in service. -/
structure Listening (lines : Fin 8 → Bool) (p : Pic) : Prop where
  ready : p.init = .ready
  mode : p.mode = icw4Mode8086
  offset : p.offset = pic1Offset
  masked : ∀ n, p.masked n = !lines n
  idle : ∀ n, p.inService n = false

def timerAndKeyboard (n : Fin 8) : Bool := n = 0 ∨ n = 1

theorem Listening.quiet {lines : Fin 8 → Bool} {p : Pic} (h : Listening lines p)
    (hlines : lines 2 = false) : p.Quiet :=
  ⟨h.ready, h.mode, h.idle, (h.masked 2).trans (by rw [hlines]; rfl)⟩

theorem Listening.accept (hI : I.Spec) {lines : Fin 8 → Bool} {p p' : π} {vector : UInt8}
    (h : Listening lines (I.registers p)) (hlines : lines 2 = false) (haccept : I.accept p vector p') :
    (∃ n, lines n = true ∧ vector = pic1Offset + UInt8.ofNat n ∧ I.Takes n p p') ∨
      vector = 0x27 ∧ I.registers p' = I.registers p ∧ I.Keeps (fun _ => True) p p' := by
  rcases hI.accept_cases (h.quiet hlines) haccept with ⟨n, rfl, htakes⟩ | ⟨rfl, hspurious⟩
  · have hopen := (h.masked n).symm.trans htakes.masked
    refine .inl ⟨n, ?_, by rw [h.offset], htakes⟩
    rwa [Bool.not_eq_false'] at hopen
  · exact .inr ⟨by rw [h.offset]; rfl, hspurious⟩

/-- A request of an open line is taken, or another one. -/
theorem Listening.exists_accept (hI : I.Spec) {lines : Fin 8 → Bool} {p : π}
    (h : Listening lines (I.registers p)) (hlines : lines 2 = false) {n : Fin 8}
    (hline : lines n = true) (hrequest : I.requested p n = true) :
    ∃ m p', lines m = true ∧ I.accept p (pic1Offset + UInt8.ofNat m) p' := by
  have hopen : (I.registers p).masked n = false := (h.masked n).trans (by rw [hline]; rfl)
  obtain ⟨m, p', haccept, htakes⟩ := hI.exists_accept (h.quiet hlines) hopen hrequest
  rw [h.offset] at haccept
  have hm := (h.masked m).symm.trans htakes.masked
  exact ⟨m, p', by rwa [Bool.not_eq_false'] at hm, haccept⟩

/-- The end of the interrupt brings the registers back to what they were. -/
theorem Listening.endOfInterrupt {lines : Fin 8 → Bool} {p : Pic} (h : Listening lines p)
    (n : Fin 8) : (p.serve n).after (.outb pic1Command picAckWord) = p := by
  have hfirst : firstLine (p.serve n).inService = some n := by
    have hset : (p.serve n).inService = fun m => decide (m = n) := by
      funext m
      by_cases hm : m = n
      · rw [hm, decide_eq_true rfl]
        exact Function.update_self ..
      · rw [decide_eq_false hm]
        exact (Function.update_of_ne hm _ _).trans (h.idle m)
    rw [hset]
    cases hfind : firstLine fun m => decide (m = n) with
    | none => exact absurd (firstLine_eq_none.mp hfind n) (by simp)
    | some m => rw [of_decide_eq_true (firstLine_eq_some hfind)]
  have hafter : (p.serve n).after (.outb pic1Command picAckWord) = (p.serve n).endOfInterrupt := rfl
  have hback : Function.update (p.serve n).inService n false = p.inService := by
    funext m
    by_cases hm : m = n
    · rw [hm, Function.update_self, h.idle]
    · rw [Function.update_of_ne hm]
      exact Function.update_of_ne hm _ _
  rw [hafter, Pic.endOfInterrupt, hfirst]
  dsimp only
  rw [hback]
  rfl

/-- What the kernel can tell of a state: all but the requests. -/
structure View where
  flag : Bool
  kernel : Kernel
  registers : Pic

def Core.view (I : Controller π) (s : Core π) : View := ⟨s.flag, s.kernel, I.registers s.pics⟩

/-- What the devices may do between two calls of kernel code. -/
def Unnoticed (I : Controller π) (s t : Core π) : Prop := t.view I = s.view I

theorem Unnoticed.refl (s : Core π) : Unnoticed I s s := rfl

theorem Unnoticed.trans {s t u : Core π} (h : Unnoticed I s t) (h' : Unnoticed I t u) :
    Unnoticed I s u := Eq.trans h' h

def KernelCall.Loads (c : KernelCall) (s : Kernel) : Prop :=
  ∀ event, c = .process event → ¬FailsToLoad event s

/-- Where no program may be frozen, each creation has to load its executable. -/
def Guarded (frozen : Prop) (c : KernelCall) (s : Kernel) : Prop := frozen ∨ c.Loads s

def Masked (v : View) : Prop := v.flag = false

/-- What kernel code ensures from any state that looks like `v`, when `guard` holds of its calls. -/
def KernelEnsures {α : Type} (I : Controller π) (guard : KernelCall → Kernel → Prop)
    (safe : View → Prop) (post : α → View → Prop) (p : KernelProg α) (v : View) : Prop :=
  ∀ s : Core π, s.view I = v → p.Ensures (Unnoticed I)
    (fun c s a t => c.Steps I s a t ∧ guard c s.kernel) (fun t => safe (t.view I))
    (fun a t => post a (t.view I)) s

variable {guard : KernelCall → Kernel → Prop}

section Ensures
variable {α β : Type} {safe : View → Prop} {post : α → View → Prop} {v w : View}

theorem KernelEnsures.isSafe {p : KernelProg α} {s : Core π}
    (h : KernelEnsures I guard safe post p (s.view I)) : safe (s.view I) := by
  have hs := Program.Ensures.isSafe Unnoticed.refl (h s rfl)
  exact hs

theorem KernelEnsures.ended {a : α} {s : Core π}
    (h : KernelEnsures I guard safe post (.ret a) (s.view I)) : post a (s.view I) := (h s rfl s rfl).2

theorem KernelEnsures.next {c : KernelCall} {next : c.Answer → KernelProg α} {s t : Core π}
    {a : c.Answer} (h : KernelEnsures I guard safe post (.call c next) (s.view I))
    (hstep : c.Steps I s a t) (hguard : guard c s.kernel) :
    KernelEnsures I guard safe post (next a) (t.view I) := fun _ hu =>
  Program.Ensures.of_rely (fun _ _ _ => Unnoticed.trans) ((h s rfl s rfl).2 a t ⟨hstep, hguard⟩) hu

theorem KernelEnsures.mono {post' : α → View → Prop} {p : KernelProg α}
    (h : KernelEnsures I guard safe post p v) (hpost : ∀ a w, post a w → post' a w) :
    KernelEnsures I guard safe post' p v := fun s hs =>
  Program.Ensures.mono (h s hs) fun a t => hpost a (t.view I)

theorem KernelEnsures.pure {a : α} (hsafe : safe v) (hpost : post a v) :
    KernelEnsures I guard safe post (pure a) v := by
  rintro s rfl
  refine Program.Ensures.pure fun t ht => ?_
  have ht' : t.view I = s.view I := ht
  rw [ht']
  exact ⟨hsafe, hpost⟩

/-- The rest starts wherever the first part ends. -/
theorem KernelEnsures.seq {mid : β → View → Prop} {p : KernelProg β} {f : β → KernelProg α}
    (h : KernelEnsures I guard safe mid p v)
    (hf : ∀ b w, mid b w → KernelEnsures I guard safe post (f b) w) :
    KernelEnsures I guard safe post (p >>= f) v := fun s hs =>
  Program.Ensures.seq Unnoticed.refl (h s hs) fun b t ht => hf b _ ht t rfl

/-- A part that leads to `w`, and what follows it. -/
theorem KernelEnsures.andThen {p : KernelProg β} {f : β → KernelProg α}
    (h : KernelEnsures I guard safe (fun _ => (· = w)) p v)
    (hf : ∀ b, KernelEnsures I guard safe post (f b) w) :
    KernelEnsures I guard safe post (p >>= f) v :=
  h.seq fun b _ hw => hw ▸ hf b

theorem KernelEnsures.perform {c : KernelCall} {f : c.Answer → KernelProg α} (hsafe : safe v)
    (h : ∀ s t a, s.view I = v → c.Steps I s a t → guard c v.kernel →
      KernelEnsures I guard safe post (f a) (t.view I)) :
    KernelEnsures I guard safe post (Interrupts.perform c >>= f) v := by
  rintro s rfl
  refine Program.Ensures.perform (fun t ht => ?_) fun t ht a u hu => ?_
  · have ht' : t.view I = s.view I := ht
    rw [ht']
    exact hsafe
  · have hkernel : t.kernel = (s.view I).kernel := congrArg View.kernel ht
    exact h t u a ht hu.1 (hkernel ▸ hu.2) u rfl

theorem ports_bind (p : PortProg β) (f : β → PortProg α) :
    ports (p >>= f) = ports p >>= fun b => ports (f b) := by
  change ports (p.bind f) = (ports p).bind fun b => ports (f b)
  induction p with
  | ret b => rfl
  | fail e => rfl
  | call c next ih => exact congrArg (Program.call (KernelCall.port c)) (funext ih)

theorem ports_uses {allowed : PortCall → Prop} {p : PortProg α} (h : p.Uses allowed) :
    (ports p).Uses fun c => ∃ d, c = .port d ∧ allowed d := by
  induction p with
  | ret a => trivial
  | fail e => trivial
  | call c next ih => exact ⟨⟨c, rfl, h.1⟩, fun a => ih a (h.2 a)⟩

/-- Code that talks to other devices is not noticed either. -/
theorem ensures_otherDevices (hI : I.Spec) {p : PortProg α} (hp : p.Uses fun c => ¬OnPics c)
    (hsafe : safe v) : KernelEnsures I guard safe (fun _ => (· = v)) (ports p) v := by
  rintro s rfl
  refine Program.Ensures.of_uses (ports_uses hp) ?_ (fun _ _ _ => Unnoticed.trans) fun t ht => ?_
  · rintro _ ⟨c, rfl, hc⟩ t a u ⟨⟨q, hq, rfl⟩, -⟩
    have hregisters : I.registers q = I.registers t.pics :=
      (hI.registers_access (kernelWord_of_not_onPics hc) hq).trans (Pic.after_of_not_onPics _ hc)
    exact congrArg (View.mk t.flag t.kernel) hregisters
  · have ht' : t.view I = s.view I := ht
    rw [ht']
    exact ⟨hsafe, fun _ => rfl⟩

theorem ensures_storeAll (addrs : List UInt32) (hsafe : safe v) :
    KernelEnsures I guard safe (fun _ => (· = v)) (storeAll addrs) v := by
  induction addrs with
  | nil => exact .pure hsafe rfl
  | cons addr addrs ih =>
    refine KernelEnsures.perform (c := .store addr) hsafe ?_
    rintro s t a rfl ⟨-, rfl⟩ -
    exact ih

theorem view_port (hI : I.Spec) {s t : Core π} {c : PortCall} {a : c.Answer} (hc : KernelWord c)
    (hs : s.view I = v) (hstep : (KernelCall.port c).Steps I s a t) :
    t.view I = { v with registers := v.registers.after c } := by
  obtain ⟨q, hq, rfl⟩ := hstep
  obtain rfl := hs
  exact congrArg (View.mk s.flag s.kernel) (hI.registers_access hc hq)

def writes (l : List (UInt16 × UInt8)) : PortProg Unit := l.forM fun w => outb w.1 w.2

def written (l : List (UInt16 × UInt8)) (p : Pic) : Pic := l.foldl (fun p w => p.after (.outb w.1 w.2)) p

theorem ensures_writes (hI : I.Spec) (l : List (UInt16 × UInt8))
    (hl : ∀ w ∈ l, KernelWord (.outb w.1 w.2)) (hsafe : ∀ p, safe { v with registers := p }) :
    KernelEnsures I guard safe (fun _ => (· = { v with registers := written l v.registers }))
      (ports (writes l)) v := by
  induction l generalizing v with
  | nil => exact .pure (hsafe v.registers) rfl
  | cons w l ih =>
    change KernelEnsures I guard safe _ (ports (outb w.1 w.2 >>= fun _ => writes l)) v
    rw [ports_bind]
    refine KernelEnsures.perform (c := .port (.outb w.1 w.2)) (hsafe v.registers) ?_
    intro s t a hs hstep _
    rw [view_port hI (hl w List.mem_cons_self) hs hstep]
    exact ih (fun w hw => hl w (List.mem_cons_of_mem _ hw)) hsafe

theorem ensures_inb (hI : I.Spec) {port : UInt16} {f : UInt8 → PortProg α} (hsafe : safe v)
    (hf : ∀ a, (port = pic1Data → a = v.registers.mask) →
      KernelEnsures I guard safe post (ports (f a)) v) :
    KernelEnsures I guard safe post (ports (inb port >>= f)) v := by
  have hread : KernelWord (.inb port) := by rintro data ⟨⟩
  rw [ports_bind]
  refine KernelEnsures.perform (c := .port (.inb port)) (f := fun a => ports (f a)) hsafe ?_
  intro s t a hs hstep _
  rw [view_port hI hread hs hstep]
  refine hf a fun hport => ?_
  obtain ⟨q, hq, rfl⟩ := hstep
  obtain rfl := hs
  subst hport
  exact hI.mask_access hq

end Ensures

def remapWrites : List (UInt16 × UInt8) :=
  [(pic1Command, icw1Init ||| icw1Icw4), (0x80, 0), (pic2Command, icw1Init ||| icw1Icw4), (0x80, 0),
    (pic1Data, pic1Offset), (0x80, 0), (pic2Data, pic2Offset), (0x80, 0), (pic1Data, 0b0100),
    (0x80, 0), (pic2Data, 0b0010), (0x80, 0), (pic1Data, icw4Mode8086), (0x80, 0),
    (pic2Data, icw4Mode8086), (0x80, 0), (pic1Data, picDisableAllMask), (pic2Data, picDisableAllMask)]

theorem picRemap_eq : picRemap = writes remapWrites := rfl

def timerWrites : List (UInt16 × UInt8) :=
  [(pitCommandRegisterPio, pitCommandValue),
    (pitChannel0DataPio, (pitTimerCounter &&& 0xFF).toUInt8),
    (pitChannel0DataPio, (pitTimerCounter >>> 8 &&& 0xFF).toUInt8)]

theorem activateTimerInterrupt_eq :
    activateTimerInterrupt = writes timerWrites >>= fun _ => activateLine irqTimer := rfl

/-- The only writes to the command port are the one that starts the initialisation and the ends
of interrupts. -/
theorem kernelWord_outb {port : UInt16} {data : UInt8}
    (h : port = pic1Command → data = icw1Init ||| icw1Icw4 ∨ data = picAckWord) :
    KernelWord (.outb port data) := by
  rintro data' heq
  obtain ⟨rfl, rfl⟩ := PortCall.outb.inj heq
  exact h rfl

theorem remapWrites_words : ∀ w ∈ remapWrites, KernelWord (.outb w.1 w.2) := by
  have hwords : (remapWrites.all fun w =>
      w.1 = pic1Command → w.2 = icw1Init ||| icw1Icw4 ∨ w.2 = picAckWord) = true := rfl
  exact fun w hw => kernelWord_outb (of_decide_eq_true (List.all_eq_true.mp hwords w hw))

theorem timerWrites_words : ∀ w ∈ timerWrites, KernelWord (.outb w.1 w.2) := by
  have hwords : (timerWrites.all fun w => w.1 ≠ pic1Command) = true := rfl
  exact fun w hw => kernelWord_outb fun h =>
    absurd h (of_decide_eq_true (List.all_eq_true.mp hwords w hw))

theorem ensures_picRemap (hI : I.Spec) {safe : View → Prop} {v : View}
    (hsafe : ∀ p, safe { v with registers := p }) :
    ∃ p, Listening (fun _ => false) p ∧
      KernelEnsures I guard safe (fun _ => (· = { v with registers := p })) (ports picRemap) v := by
  have hmask : ∀ n : Fin 8, picDisableAllMask.toBitVec.getLsbD n = true := by decide
  rw [picRemap_eq]
  refine ⟨written remapWrites v.registers, ?_, ensures_writes hI _ remapWrites_words hsafe⟩
  exact ⟨rfl, rfl, rfl, hmask, fun _ => rfl⟩

theorem masked_openLine (mask : UInt8) (n m : Fin 8) :
    (mask &&& ~~~((1 : UInt8) <<< UInt8.ofNat n)).toBitVec.getLsbD m =
      (mask.toBitVec.getLsbD m && !decide (m = n)) := by
  have hbit : ∀ n m : Fin 8,
      (~~~((1 : UInt8) <<< UInt8.ofNat n)).toBitVec.getLsbD m = !decide (m = n) := by decide
  rw [UInt8.toBitVec_and, BitVec.getLsbD_and, hbit]

/-- The chip listens to one line more. -/
theorem ensures_activateLine (hI : I.Spec) {lines : Fin 8 → Bool} {v : View}
    (h : Listening lines v.registers) (n : Fin 8) :
    ∃ p, Listening (fun m => lines m || decide (m = n)) p ∧ ∀ safe : View → Prop,
      safe v → safe { v with registers := p } →
      KernelEnsures I guard safe (fun _ => (· = { v with registers := p }))
        (ports (activateLine (UInt8.ofNat n))) v := by
  let mask := v.registers.mask &&& ~~~((1 : UInt8) <<< UInt8.ofNat n)
  let p : Pic := { v.registers with mask := mask }
  have hp : v.registers.after (.outb pic1Data mask) = p := Pic.writeData_of_ready mask h.ready
  have hword : KernelWord (.outb pic1Data mask) := kernelWord_outb fun hport => absurd hport (by decide)
  refine ⟨p, ?_, fun safe hbefore hafter => ?_⟩
  · refine ⟨h.ready, h.mode, h.offset, fun m => ?_, h.idle⟩
    have hmasked := h.masked m
    rw [Pic.masked] at hmasked
    change mask.toBitVec.getLsbD m = _
    rw [masked_openLine, hmasked, Bool.not_or]
  · refine ensures_inb hI hbefore fun a ha => ?_
    obtain rfl := ha rfl
    refine KernelEnsures.perform (c := .port (.outb pic1Data mask)) (f := fun _ => .ret ()) hbefore ?_
    intro s t _ hs hstep _
    rw [view_port hI hword hs hstep, hp]
    exact .pure hafter rfl

/-- Kernel code that ends with a switch to a context, of which `Q` holds. -/
def HandsOver (Q : Context → Kernel → Prop) (r : Return) (v : View) : Prop :=
  ∃ ctx, r = .context ctx ∧ Q ctx v.kernel ∧ Listening timerAndKeyboard v.registers

/-- How kernel code ends once processes run. -/
structure Finished (frozen : Prop) (r : Return) (v : View) : Prop where
  sound : Sound frozen v.kernel
  listening : Listening timerAndKeyboard v.registers
  flags : ∀ ctx, r = .context ctx → FlagsOk frozen ctx.eflags

section Handlers
variable {frozen : Prop} {k : Kernel} {p : Pic} (frame : Context) (call : SystemCall)

theorem ensures_picAck (hI : I.Spec) {safe : View → Prop} {lines : Fin 8 → Bool} (hp : Listening lines p)
    (n : Fin 8) (irq : UInt8) (hirq : ¬irq ≥ 8) (hsafe : ∀ v : View, v.flag = false → safe v) :
    KernelEnsures I guard safe (fun _ => (· = ⟨false, k, p⟩)) (ports (picAck irq))
      ⟨false, k, p.serve n⟩ := by
  have hack : picAck irq = writes [(pic1Command, picAckWord)] := by
    rw [picAck, if_neg hirq]
    rfl
  have hword : ∀ w ∈ [(pic1Command, picAckWord)], KernelWord (.outb w.1 w.2) := by
    intro w hw
    rw [List.mem_singleton.mp hw]
    exact kernelWord_outb fun _ => .inr rfl
  rw [hack]
  refine (ensures_writes hI _ hword fun q => hsafe _ rfl).mono fun _ w hw => hw.trans ?_
  exact congrArg (View.mk false k) (hp.endOfInterrupt n)

theorem ensures_switch {safe : View → Prop} {Q : Context → Kernel → Prop}
    (hsafe : ∀ v : View, v.flag = false → safe v) (hp : Listening timerAndKeyboard p)
    (hswitch : ∀ ctx k', schedulerSwitchToNextProcess k = .ok (ctx, k') → Q ctx k') :
    KernelEnsures I guard safe (HandsOver Q) (perform .switch >>= fun next => pure (.context next))
      ⟨false, k, p⟩ := by
  refine KernelEnsures.perform (hsafe _ rfl) ?_
  rintro s t ctx hs ⟨k', hk', rfl⟩ -
  have hkernel : s.kernel = k := congrArg View.kernel hs
  have hflag : s.flag = false := congrArg View.flag hs
  have hregisters : I.registers s.pics = p := congrArg View.registers hs
  rw [hkernel] at hk'
  rw [← hregisters] at hp
  exact .pure (hsafe _ hflag) ⟨ctx, rfl, hswitch ctx k' hk', hp⟩

theorem ensures_timer (hI : I.Spec) (hk : Sound frozen k) (hp : Listening timerAndKeyboard p)
    (hframe : Preemptible frame.eflags) :
    KernelEnsures I guard Masked (Finished frozen) (mainInterruptHandler 0x20 frame call)
      ⟨false, k, p.serve 0⟩ := by
  rw [mainInterruptHandler, if_pos rfl]
  refine KernelEnsures.perform rfl ?_
  rintro s t _ hs ⟨k', hsave, rfl⟩ -
  have hkernel : s.kernel = k := congrArg View.kernel hs
  have hstart : Core.view I { s with kernel := k' } = ⟨false, k', p.serve 0⟩ :=
    congrArg (fun v : View => ({ v with kernel := k' } : View)) hs
  rw [hstart]
  refine KernelEnsures.andThen (ensures_picAck hI hp 0 irqTimer (by decide) fun _ h => h) fun _ => ?_
  have hends : ∀ r v, HandsOver (fun ctx k => Sound frozen k ∧ FlagsOk frozen ctx.eflags) r v →
      Finished frozen r v := by
    rintro _ v ⟨ctx, rfl, ⟨hsound, hctx⟩, hlisten⟩
    exact ⟨hsound, hlisten, fun _ h => Return.context.inj h ▸ hctx⟩
  refine (ensures_switch (fun _ h => h) hp fun ctx k'' hswitch => ?_).mono hends
  have htick : timerTick frame k = .ok (ctx, k'') := by
    rw [hkernel] at hsave
    rw [timerTick, hsave]
    exact hswitch
  exact hk.tick hframe htick

theorem ensures_keyboard (hI : I.Spec) {lines : Fin 8 → Bool} (hp : Listening lines p) :
    KernelEnsures I guard Masked (fun r v => v = ⟨false, k, p⟩ ∧ r = .resume)
      (mainInterruptHandler 0x21 frame call) ⟨false, k, p.serve 1⟩ := by
  rw [mainInterruptHandler, if_neg (by decide), if_pos rfl]
  refine KernelEnsures.andThen (w := ⟨false, k, p⟩) ?_ fun _ => .pure rfl ⟨rfl, rfl⟩
  refine ensures_inb hI rfl fun _ _ => ?_
  exact ensures_picAck hI hp 1 1 (by decide) fun _ h => h

theorem ensures_service (hI : I.Spec) (hk : Sound frozen k) (hp : Listening timerAndKeyboard p)
    (hcall : call.Admissible) :
    KernelEnsures I (Guarded frozen) Masked
      (fun _ v => v.flag = false ∧ Sound frozen v.kernel ∧ Listening timerAndKeyboard v.registers)
      call.service.code ⟨false, k, p⟩ := by
  rw [SystemCall.Admissible] at hcall
  cases hservice : call.service with
  | device code =>
    rw [hservice] at hcall
    have hdevice : KernelEnsures I (Guarded frozen) Masked (fun _ => (· = ⟨false, k, p⟩)) (ports code)
        ⟨false, k, p⟩ := ensures_otherDevices hI hcall rfl
    refine hdevice.mono ?_
    rintro _ _ rfl
    exact ⟨rfl, hk, hp⟩
  | process event =>
    rw [hservice] at hcall
    refine KernelEnsures.perform (f := fun _ => .ret ()) rfl ?_
    rintro s t _ hs ⟨k', hstep, rfl⟩ hguard
    have hkernel : s.kernel = k := congrArg View.kernel hs
    have hflag : s.flag = false := congrArg View.flag hs
    have hregisters : I.registers s.pics = p := congrArg View.registers hs
    rw [hkernel] at hstep
    rw [← hregisters] at hp
    exact .pure hflag ⟨hflag, hk.process hstep hcall (hguard.imp_right fun h => h event rfl), hp⟩

theorem ensures_syscall (hI : I.Spec) (hk : Sound frozen k) (hp : Listening timerAndKeyboard p)
    (hcall : call.Admissible) :
    KernelEnsures I (Guarded frozen) Masked (Finished frozen)
      (mainInterruptHandler 0x30 frame call) ⟨false, k, p⟩ := by
  rw [mainInterruptHandler, if_neg (by decide), if_neg (by decide), if_pos rfl, syscall,
    Program.bind_assoc]
  refine (ensures_service call hI hk hp hcall).seq fun _ v ⟨hflag, hsound, hlisten⟩ => ?_
  exact (ensures_storeAll call.stores hflag).andThen fun _ =>
    .pure hflag ⟨hsound, hlisten, fun _ h => by cases h⟩

theorem mainInterruptHandler_other {i : Fin 64} (hi : i ≠ 0x20 ∧ i ≠ 0x21 ∧ i ≠ 0x30) :
    mainInterruptHandler i frame call = .ret .resume := by
  rw [mainInterruptHandler, if_neg hi.1, if_neg hi.2.1, if_neg hi.2.2]
  rfl

end Handlers

/-- The drive is not one of the chips. -/
theorem not_onPics_of_onDrive {c : PortCall} (h : Disk.OnDrive c) : ¬OnPics c := by
  have hlow : ∀ port : UInt16, port < 0x1F0 → c.port ≠ port := fun port hport hc =>
    absurd (hc ▸ h.1) (UInt16.not_le.mpr hport)
  rintro (hc | hc | hc | hc)
  · exact hlow _ (by decide) hc
  · exact hlow _ (by decide) hc
  · exact hlow _ (by decide) hc
  · exact hlow _ (by decide) hc

theorem bootProgram_otherDevice (fuel : ℕ) (buffer : DiskCall → Disk.Buffer) :
    (Disk.bootProgram fuel buffer).Uses fun c => ¬OnPics c :=
  (Disk.bootProgram_onDrive fuel buffer).mono fun _ => not_onPics_of_onDrive

/-- While interrupts are enabled, at most the keyboard interrupts. -/
def BootSafe (v : View) : Prop :=
  v.flag = true → ∃ lines, Listening lines v.registers ∧ ∀ n, lines n = true → n = 1

theorem BootSafe.of_disabled {v : View} (h : v.flag = false) : BootSafe v := fun hv => by
  rw [h] at hv
  cases hv

theorem BootSafe.of_listening {lines : Fin 8 → Bool} {v : View} (h : Listening lines v.registers)
    (hlines : ∀ n, lines n = true → n = 1) : BootSafe v := fun _ => ⟨lines, h, hlines⟩

theorem ensures_activateTimer (hI : I.Spec) {safe : View → Prop} {lines : Fin 8 → Bool} {p : Pic}
    (k : Kernel) (h : Listening lines p) (hsafe : ∀ v : View, v.flag = false → safe v) :
    ∃ p', Listening (fun n => lines n || decide (n = 0)) p' ∧
      KernelEnsures I guard safe (fun _ => (· = ⟨false, k, p'⟩)) (ports activateTimerInterrupt)
        ⟨false, k, p⟩ := by
  obtain ⟨p', hp', hactivate⟩ := ensures_activateLine (v := ⟨false, k, p⟩) hI h 0
  refine ⟨p', hp', ?_⟩
  rw [activateTimerInterrupt_eq, ports_bind]
  refine KernelEnsures.andThen (w := ⟨false, k, p⟩) ?_ fun _ =>
    hactivate safe (hsafe _ rfl) (hsafe _ rfl)
  exact ensures_writes hI timerWrites timerWrites_words fun q => hsafe _ rfl

/-- What the creation of the first process makes of the kernel, the boot hands over. -/
theorem ensures_boot (hI : I.Spec) (fuel : ℕ) (buffer : DiskCall → Disk.Buffer) {fs : Storage}
    {Q : Context → Kernel → Prop} (p : Pic)
    (hcreate : ∀ code k ctx k', guard (.process (.create fs shellRequest)) kernelStart →
      processCreateUserProcess fs shellRequest kernelStart = .ok (code, k) →
      schedulerSwitchToNextProcess k = .ok (ctx, k') → Q ctx k') :
    KernelEnsures I guard BootSafe (HandsOver Q) (kernelSetup fuel buffer fs)
      ⟨false, initialKernel, p⟩ := by
  have hnone : ∀ n : Fin 8, (fun _ => false) n = true → n = 1 := fun n h => by cases h
  have hmasked : ∀ v : View, v.flag = false → BootSafe v := fun _ => .of_disabled
  rw [kernelSetup]
  refine KernelEnsures.perform (hmasked _ rfl) ?_
  rintro s _ _ hs rfl -
  have hview : Core.view I { s with flag := false } = ⟨false, initialKernel, p⟩ :=
    congrArg (fun v : View => ({ v with flag := false } : View)) hs
  rw [hview]
  obtain ⟨p₁, hp₁, hremap⟩ := ensures_picRemap hI (v := ⟨false, initialKernel, p⟩) fun q => hmasked _ rfl
  refine hremap.andThen fun _ => ?_
  refine KernelEnsures.perform (hmasked _ rfl) ?_
  rintro s _ _ hs rfl -
  have hview : Core.view I { s with flag := true } = ⟨true, initialKernel, p₁⟩ :=
    congrArg (fun v : View => ({ v with flag := true } : View)) hs
  rw [hview]
  obtain ⟨p₂, hp₂, hactivate⟩ := ensures_activateLine (v := ⟨true, initialKernel, p₁⟩) hI hp₁ 1
  have hkeyboard : ∀ n : Fin 8, (false || decide (n = 1)) = true → n = 1 := by decide
  have hsafe : ∀ k : Kernel, BootSafe ⟨true, k, p₂⟩ := fun _ => .of_listening hp₂ hkeyboard
  refine (hactivate BootSafe (.of_listening hp₁ hnone) (hsafe _)).andThen fun _ => ?_
  refine (ensures_otherDevices hI (bootProgram_otherDevice fuel buffer) (hsafe _)).andThen fun _ => ?_
  refine KernelEnsures.perform (hsafe _) ?_
  rintro s _ _ hs ⟨k, hk, rfl⟩ -
  have hkernel : s.kernel = initialKernel := congrArg View.kernel hs
  rw [hkernel, allocateFirstPage_eq] at hk
  obtain rfl := Except.ok.inj hk
  have hview : Core.view I { s with kernel := kernelStart } = ⟨true, kernelStart, p₂⟩ :=
    congrArg (fun v : View => ({ v with kernel := kernelStart } : View)) hs
  rw [hview]
  refine KernelEnsures.perform (hsafe _) ?_
  rintro s _ _ hs ⟨k, hk, rfl⟩ hguard
  have hkernel : s.kernel = kernelStart := congrArg View.kernel hs
  rw [hkernel] at hk
  obtain ⟨code, hk⟩ := map_snd_eq_ok hk
  have hview : Core.view I { s with kernel := k } = ⟨true, k, p₂⟩ :=
    congrArg (fun v : View => ({ v with kernel := k } : View)) hs
  rw [hview]
  refine KernelEnsures.perform (hsafe _) ?_
  rintro s _ _ hs rfl -
  have hview : Core.view I { s with flag := false } = ⟨false, k, p₂⟩ :=
    congrArg (fun v : View => ({ v with flag := false } : View)) hs
  rw [hview]
  have hlines : (fun n => false || decide (n = 1) || decide (n = 0)) = timerAndKeyboard :=
    funext (by decide)
  obtain ⟨p₃, hp₃, hactivate⟩ := ensures_activateTimer hI k hp₂ hmasked
  refine hactivate.andThen fun _ => ?_
  refine ensures_switch hmasked (hlines ▸ hp₃) fun ctx k' hswitch => ?_
  exact hcreate code k ctx k' hguard hk hswitch

theorem save_created {s : Kernel} {frame : Context} {fs : Storage} {request : DriverRequest}
    {code : Int32} (hcreate : processCreateUserProcess fs request kernelStart = .ok (code, s)) :
    schedulerSaveContextToCurrentRunningPcb frame s = .ok s := by
  refine if_pos ?_
  cases kernelStart_isolated.create_outcome hcreate with
  | refused => rfl
  | unreadable i d t answer hi ht => exact ht.running
  | loaded i d t stores hi ht => exact ht.running

/-- The first process is handed out as by the timer, with nothing to save. -/
theorem start_eq_timerTick {s s' : Kernel} {ctx : Context} {fs : Storage}
    {request : DriverRequest} {code : Int32} (frame : Context)
    (hcreate : processCreateUserProcess fs request kernelStart = .ok (code, s))
    (hswitch : schedulerSwitchToNextProcess s = .ok (ctx, s')) : timerTick frame s = .ok (ctx, s') := by
  have hsave : schedulerSaveContextToCurrentRunningPcb frame s = .ok s := save_created hcreate
  rw [timerTick, hsave]
  exact hswitch

theorem Sound.start {frozen : Prop} {s s' : Kernel} {ctx : Context} {fs : Storage} {code : Int32}
    (hguard : Guarded frozen (.process (.create fs shellRequest)) kernelStart)
    (hcreate : processCreateUserProcess fs shellRequest kernelStart = .ok (code, s))
    (hswitch : schedulerSwitchToNextProcess s = .ok (ctx, s')) :
    Sound frozen s' ∧ FlagsOk frozen ctx.eflags := by
  have hs : Sound frozen s := (kernelStart_sound frozen).process (.create hcreate)
    (fun _ h => by cases h) (hguard.imp_right fun h => h _ rfl)
  let frame : Context := { (s.processList 0).context with eflags := cpuEflagsFlagInterruptEnable }
  have hframe : Preemptible frame.eflags := (by decide : Preemptible cpuEflagsFlagInterruptEnable)
  exact hs.tick hframe (start_eq_timerTick frame hcreate hswitch)

def NextCall (m : Processor π) (P : KernelCall → Kernel → Prop) : Prop :=
  ∀ flag c next below, m.stack = ⟨flag, .call c next⟩ :: below → P c m.kernel

/-- Steps that create no process without its executable, where no program may be frozen. -/
def GuardedStep (frozen : Prop) (I : Controller π) (isrStubTable : Fin 64 → UInt32) (m : Processor π)
    (e : ProcessorEvent) (m' : Processor π) : Prop :=
  NextCall m (Guarded frozen) ∧ ContainedStep I isrStubTable m e m'

/-- The processor as the boot loader leaves it: no process, and interrupts disabled. -/
def atBoot (fuel : ℕ) (buffer : DiskCall → Disk.Buffer) (fs : Storage) (p : π) : Processor π :=
  ⟨p, initialKernel, none, [⟨false, kernelSetup fuel buffer fs⟩]⟩

end Os2024.Interrupts
