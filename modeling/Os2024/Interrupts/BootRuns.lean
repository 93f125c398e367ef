import Os2024.Interrupts.Chips
import Os2024.Interrupts.KernelCode
import Os2024.Process.Answers
import Os2024.Process.Running

/-! # Runs of the kernel on two 8259A chips

Kernel code that is not interrupted can be followed to its end, call by call. The boot
initialises the file system through the ports of the drive and ends with the switch to
what the creation of its first process has left, be it a process with its executable
or not.
-/

namespace Os2024.Interrupts
open Library.PackedLayout Library.BlockStore Library.CallTrees Library.Runs Process FileSystem

/-- The calls of kernel code can go so that it ends with `r` in `t`. -/
def Finishes {α : Type} (frozen : Prop) : KernelProg α → Core Chips → α → Core Chips → Prop
  | .ret a, s, r, t => a = r ∧ s = t
  | .fail _, _, _, _ => False
  | .call c next, s, r, t => ∃ a u, c.Steps Chips.controller s a u ∧ Guarded frozen c s.kernel ∧
      Finishes frozen (next a) u r t

section Finishes
variable {frozen : Prop} {α β : Type} {s u t : Core Chips} {r : α}

theorem guarded_of_ne {c : KernelCall} (h : ∀ event, c ≠ .process event) (k : Kernel) :
    Guarded frozen c k := .inr fun event heq => absurd heq (h event)

theorem Finishes.bind {p : KernelProg β} {f : β → KernelProg α} {b : β}
    (hp : Finishes frozen p s b u) (hf : Finishes frozen (f b) u r t) :
    Finishes frozen (p >>= f) s r t := by
  change Finishes frozen (p.bind f) s r t
  induction p generalizing s with
  | ret c =>
    obtain ⟨rfl, rfl⟩ := hp
    exact hf
  | fail e => exact hp.elim
  | call c next ih =>
    obtain ⟨a, v, hstep, hguard, hrest⟩ := hp
    exact ⟨a, v, hstep, hguard, ih a hrest⟩

theorem Finishes.perform {c : KernelCall} {f : c.Answer → KernelProg α} {a : c.Answer}
    (h : c.Steps Chips.controller s a u) (hguard : Guarded frozen c s.kernel)
    (hf : Finishes frozen (f a) u r t) :
    Finishes frozen (Interrupts.perform c >>= f) s r t := ⟨a, u, h, hguard, hf⟩

variable (frozen)

theorem finishes_writes (l : List (UInt16 × UInt8)) (s : Core Chips) :
    ∃ p, Finishes frozen (ports (writes l)) s () { s with pics := p } := by
  induction l generalizing s with
  | nil => exact ⟨s.pics, rfl, rfl⟩
  | cons w l ih =>
    obtain ⟨p, hp⟩ := ih { s with pics := s.pics.after (.outb w.1 w.2) }
    exact ⟨p, (), _, ⟨_, ⟨trivial, rfl⟩, rfl⟩, guarded_of_ne (by rintro _ ⟨⟩) _, hp⟩

theorem finishes_activateLine (irq : UInt8) (s : Core Chips) :
    ∃ p, Finishes frozen (ports (activateLine irq)) s () { s with pics := p } := by
  have hread : s.pics.Answers (.inb pic1Data) s.pics.master.registers.mask :=
    ⟨fun _ => rfl, fun h => absurd h (by decide)⟩
  exact ⟨_, s.pics.master.registers.mask, s, ⟨s.pics, ⟨hread, rfl⟩, rfl⟩,
    guarded_of_ne (by rintro _ ⟨⟩) _, (), _, ⟨_, ⟨trivial, rfl⟩, rfl⟩,
    guarded_of_ne (by rintro _ ⟨⟩) _, rfl, rfl⟩

theorem finishes_activateTimer (s : Core Chips) :
    ∃ p, Finishes frozen (ports activateTimerInterrupt) s () { s with pics := p } := by
  obtain ⟨p, hwrites⟩ := finishes_writes frozen timerWrites s
  obtain ⟨q, hline⟩ := finishes_activateLine frozen irqTimer { s with pics := p }
  rw [activateTimerInterrupt_eq, ports_bind]
  exact ⟨q, hwrites.bind hline⟩

/-- Code that talks to another device goes as this device answers. -/
theorem finishes_ports {δ : Type} {exec : (c : PortCall) → δ → Except Fault (c.Answer × δ)} {d d' : δ}
    {p : PortProg α} (hp : p.Uses fun c => ¬OnPics c) (h : p.run exec d = .ok (r, d')) (s : Core Chips) :
    Finishes frozen (ports p) s r s := by
  induction p generalizing d with
  | ret a =>
    obtain ⟨rfl, -⟩ := Prod.mk.inj (Except.ok.inj h)
    exact ⟨rfl, rfl⟩
  | fail e => cases h
  | call c next ih =>
    rw [Program.run] at h
    cases hc : exec c d with
    | error e =>
      rw [hc] at h
      cases h
    | ok x =>
      rw [hc] at h
      have hanswers : s.pics.Answers c x.1 := by
        cases c with
        | inb port =>
          exact ⟨fun hport => absurd (.inr (.inl hport)) hp.1,
            fun hport => absurd (.inr (.inr (.inr hport))) hp.1⟩
        | _ => trivial
      have hafter : s.pics.after c = s.pics := by
        cases c with
        | outb port data =>
          obtain ⟨h₁, h⟩ := not_or.mp hp.1
          obtain ⟨h₂, h⟩ := not_or.mp h
          obtain ⟨h₃, h₄⟩ := not_or.mp h
          rw [Chips.after]
          exact (if_neg h₁).trans ((if_neg h₂).trans ((if_neg h₃).trans (if_neg h₄)))
        | _ => rfl
      have haccess : Chips.controller.access c s.pics x.1 s.pics := ⟨hanswers, hafter.symm⟩
      exact ⟨x.1, s, ⟨s.pics, haccess, rfl⟩, guarded_of_ne (by rintro _ ⟨⟩) _, ih x.1 (hp.2 x.1) h⟩

variable {frozen}

theorem Finishes.ended {safe : View → Prop} {post : α → View → Prop} {p : KernelProg α}
    (h : Finishes frozen p s r t) (hensures : KernelEnsures Chips.controller (Guarded frozen) safe post
      p (s.view Chips.controller)) : post r (t.view Chips.controller) := by
  induction p generalizing s with
  | ret a =>
    obtain ⟨rfl, rfl⟩ := h
    exact hensures.ended
  | fail e => exact h.elim
  | call c next ih =>
    obtain ⟨a, u, hstep, hguard, hrest⟩ := h
    exact ih a hrest (hensures.next hstep hguard)

/-- The processor follows it, whatever lies below on the stack. -/
theorem Finishes.trace {p : KernelProg Return} {r : Return} (h : Finishes frozen p s r t)
    (isrStubTable : Fin 64 → UInt32) (user : Option Context) (below : List Frame) :
    ∃ l, (∀ e ∈ l, e = .kernelCode) ∧
      Trace (GuardedStep frozen Chips.controller isrStubTable)
        ⟨s.pics, s.kernel, user, ⟨s.flag, p⟩ :: below⟩ l
        ⟨t.pics, t.kernel, user, ⟨t.flag, .ret r⟩ :: below⟩ := by
  induction p generalizing s with
  | ret a =>
    obtain ⟨rfl, rfl⟩ := h
    exact ⟨[], by simp, .nil _⟩
  | fail e => exact h.elim
  | call c next ih =>
    obtain ⟨a, u, hstep, hguard, hrest⟩ := h
    obtain ⟨l, hl, htrace⟩ := ih a hrest
    let m : Processor Chips := ⟨s.pics, s.kernel, user, ⟨s.flag, .call c next⟩ :: below⟩
    have hnext : NextCall m (Guarded frozen) := by
      intro flag c' next' below' hcode
      obtain ⟨hframe, -⟩ := List.cons.inj hcode
      obtain ⟨hc, -⟩ := Program.call.inj (Frame.mk.inj hframe).2
      exact hc ▸ hguard
    refine ⟨.kernelCode :: l, fun e he => ?_, .cons ⟨hnext, by rintro ⟨⟩, .call rfl hstep⟩ htrace⟩
    rcases List.mem_cons.mp he with rfl | he
    · rfl
    · exact hl e he

theorem nextCall_program {P : KernelCall → Kernel → Prop} (m : Processor Chips) (h : m.stack = []) :
    NextCall m P := by
  intro flag c next below hcode
  rw [h] at hcode
  cases hcode

theorem nextCall_ended {P : KernelCall → Kernel → Prop} (m : Processor Chips) {f : Frame} {r : Return}
    (h : m.stack = [f]) (hf : f.rest = .ret r) : NextCall m P := by
  intro flag c next below hcode
  rw [h] at hcode
  obtain ⟨rfl, -⟩ := List.cons.inj hcode
  cases hf

theorem Finishes.handler {isrStubTable : Fin 64 → UInt32} {p : KernelProg Return} {r : Return}
    {ctx : Context} (h : Finishes frozen p s r t) (user : Option Context)
    (hr : r = .context ctx ∨ r = .resume ∧ user = some ctx) :
    ∃ l, (∀ e ∈ l, e = .kernelCode) ∧ Trace (GuardedStep frozen Chips.controller isrStubTable)
      ⟨s.pics, s.kernel, user, [⟨s.flag, p⟩]⟩ l ⟨t.pics, t.kernel, some ctx, []⟩ := by
  obtain ⟨l, hl, htrace⟩ := h.trace isrStubTable user []
  have hlast : GuardedStep frozen Chips.controller isrStubTable
      ⟨t.pics, t.kernel, user, [⟨t.flag, .ret r⟩]⟩ .kernelCode ⟨t.pics, t.kernel, some ctx, []⟩ := by
    refine ⟨nextCall_ended _ rfl rfl, by rintro ⟨⟩, ?_⟩
    rcases hr with rfl | ⟨rfl, rfl⟩
    · exact .context rfl
    · exact .resume rfl
  refine ⟨l ++ [.kernelCode], fun e he => ?_, htrace.append (.cons hlast (.nil _))⟩
  rcases List.mem_append.mp he with he | he
  · exact hl e he
  · exact List.mem_singleton.mp he

end Finishes

section Boot
variable {frozen : Prop} (isrStubTable : Fin 64 → UInt32) {δ : Type} {D : Disk.Drive δ}
  {fuel capacity : ℕ} {image : Store Block} {d : δ} {fs : Storage} {code : Int32} {k k' : Kernel}
  {ctx : Context}

/-- A drive as the driver needs one leaves the boot to what it creates. -/
theorem boot_run (hD : D.Spec fuel) (hcapacity : 2048 ≤ capacity) (hd : D.Rests image capacity d)
    (buffer : DiskCall → Disk.Buffer) (p : Chips)
    (hguard : Guarded frozen (.process (.create fs shellRequest)) kernelStart)
    (hcreate : processCreateUserProcess fs shellRequest kernelStart = .ok (code, k))
    (hswitch : schedulerSwitchToNextProcess k = .ok (ctx, k')) :
    ∃ q, Run (GuardedStep frozen Chips.controller isrStubTable) (atBoot fuel buffer fs p)
      ⟨q, k', some ctx, []⟩ ∧ Listening timerAndKeyboard q.master.registers := by
  obtain ⟨d', hdrive, -⟩ := Disk.run_bootProgram hD hcapacity buffer hd
  obtain ⟨p₁, hremap⟩ := finishes_writes frozen remapWrites ⟨false, initialKernel, p⟩
  obtain ⟨p₂, hkeyboard⟩ := finishes_activateLine frozen irqKeyboard ⟨true, initialKernel, p₁⟩
  obtain ⟨p₃, htimer⟩ := finishes_activateTimer frozen ⟨false, k, p₂⟩
  have hfiles := finishes_ports frozen (bootProgram_otherDevice fuel buffer) hdrive
    ⟨true, initialKernel, p₂⟩
  have hboot : Finishes frozen (kernelSetup fuel buffer fs) ⟨false, initialKernel, p⟩ (.context ctx)
      ⟨false, k', p₃⟩ := by
    refine Finishes.perform (a := ()) rfl (guarded_of_ne (by rintro _ ⟨⟩) _) ?_
    refine Finishes.bind hremap ?_
    refine Finishes.perform (a := ()) rfl (guarded_of_ne (by rintro _ ⟨⟩) _) ?_
    refine Finishes.bind hkeyboard ?_
    refine Finishes.bind hfiles ?_
    refine Finishes.perform (a := ()) ⟨kernelStart, allocateFirstPage_eq, rfl⟩
      (guarded_of_ne (by rintro _ ⟨⟩) _) ?_
    refine Finishes.perform (a := ()) ⟨k, .create hcreate, rfl⟩ hguard ?_
    refine Finishes.perform (a := ()) rfl (guarded_of_ne (by rintro _ ⟨⟩) _) ?_
    refine Finishes.bind htimer ?_
    exact Finishes.perform ⟨k', hswitch, rfl⟩ (guarded_of_ne (by rintro _ ⟨⟩) _) ⟨rfl, rfl⟩
  obtain ⟨l, -, htrace⟩ := hboot.handler none (.inl rfl)
  have hensures : KernelEnsures Chips.controller (Guarded frozen) BootSafe (HandsOver fun _ _ => True)
      (kernelSetup fuel buffer fs) ⟨false, initialKernel, p.master.registers⟩ :=
    ensures_boot Chips.controller_spec fuel buffer p.master.registers fun _ _ _ _ _ _ _ => trivial
  obtain ⟨-, -, -, hlisten⟩ := hboot.ended hensures
  exact ⟨p₃, htrace.run, hlisten⟩

theorem switch_returns (hcreate : processCreateUserProcess fs shellRequest kernelStart = .ok (code, k))
    {i : Fin 16} (hused : k.processListUsed i = true) :
    ∃ ctx k', schedulerSwitchToNextProcess k = .ok (ctx, k') := by
  let frame : Context := (k.processList 0).context
  have hsave : schedulerSaveContextToCurrentRunningPcb frame k = .ok k := save_created hcreate
  obtain ⟨handed, k', htick⟩ :=
    timerTick_returns (reachable_kernelStart.step (.create hcreate)).isolated hused hsave
  rw [timerTick, hsave] at htick
  exact ⟨handed, k', htick⟩

theorem shell_admitted : Admitted shellRequest kernelStart 0 := by
  have hneeded : (pageFrameCountNeeded shellRequest).toNat = 2 :=
    ceilDiv_toNat (k := 22) (by decide) rfl (by norm_num)
  have hpages : pageFrameCountNeeded shellRequest ≤ processPageFrameCountMax :=
    UInt32.le_iff_toNat_le.mpr (hneeded.trans_le (by decide))
  exact ⟨by decide, by decide, kernelStart_isolated.pagingAllocateCheck hpages, hpages, rfl⟩

end Boot

/-- A program that can be preempted runs as the running process. -/
structure Serving (p : Chips) (k : Kernel) (ctx : Context) : Prop where
  sound : Sound False k
  running : ∃ i, Running k i
  flags : Preemptible ctx.eflags
  listening : Listening timerAndKeyboard p.master.registers

/-- GETCHAR, to an address of the program's page. -/
def getChar : SystemCall := ⟨.device (pure ()), [0x1000]⟩

section Serving
variable {isrStubTable : Fin 64 → UInt32} {p : Chips} {k : Kernel} {ctx : Context}

theorem finishes_timer {handed : Context} {k' : Kernel} (call : SystemCall)
    (htick : timerTick ctx k = .ok (handed, k')) (p : Chips) :
    ∃ q, Finishes False (mainInterruptHandler 0x20 ctx call) ⟨false, k, p⟩ (.context handed)
      ⟨false, k', q⟩ := by
  rw [timerTick] at htick
  cases hsave : schedulerSaveContextToCurrentRunningPcb ctx k with
  | error fault =>
    rw [hsave] at htick
    cases htick
  | ok t =>
    rw [hsave] at htick
    obtain ⟨q, hack⟩ := finishes_writes False [(pic1Command, picAckWord)] ⟨false, t, p⟩
    rw [mainInterruptHandler, if_pos rfl]
    refine ⟨q, Finishes.perform (a := ()) ⟨t, hsave, rfl⟩ (guarded_of_ne (by rintro _ ⟨⟩) _) ?_⟩
    refine Finishes.bind hack ?_
    exact Finishes.perform ⟨k', htick, rfl⟩ (guarded_of_ne (by rintro _ ⟨⟩) _) ⟨rfl, rfl⟩

/-- A request of the timer is taken before all others, and another program goes on. -/
theorem Serving.timer (h : Serving p k ctx) (hstubs : Function.Injective isrStubTable)
    (hrequest : p.master.requested 0 = true) : ∃ l q k' handed, (∀ e ∈ l, e = .kernelCode) ∧
      Trace (GuardedStep False Chips.controller isrStubTable) ⟨p, k, some ctx, []⟩
        (.accept 0x20 :: l) ⟨q, k', some handed, []⟩ ∧ Serving q k' handed := by
  obtain ⟨i, hi⟩ := h.running
  obtain ⟨handed, k', htick⟩ := (hi.live h.sound.reachable.isolated).tick ctx
  have hquiet : p.master.registers.Quiet := h.listening.quiet rfl
  have hlinked : p.linked.requested 0 = true := hrequest
  have hpending : p.linked.pending = some 0 := by
    rw [Chips.pending_of_quiet hquiet]
    refine firstLine_of_zero ?_
    rw [hlinked, h.listening.masked]
    rfl
  obtain ⟨haccept, -⟩ := Chips.accept_of_quiet hquiet hpending
  rw [h.listening.offset] at haccept
  let served : Chips := ⟨p.master.acknowledge 0, p.slave⟩
  obtain ⟨q, hhandler⟩ := finishes_timer idleCall htick served
  have hfinished : Finished False (.context handed) ⟨false, k', q.master.registers⟩ :=
    hhandler.ended (ensures_timer ctx idleCall Chips.controller_spec h.sound h.listening h.flags)
  obtain ⟨l, hl, htrace⟩ := hhandler.handler (some ctx) (.inl rfl)
  obtain ⟨m, henters⟩ := exists_enters hstubs 0x20 ctx idleCall ⟨served, k, some ctx, []⟩
  obtain rfl := Enters.eq hstubs henters
  have htaken : Chips.controller.accept p 0x20 served := .inl haccept
  have hstep : GuardedStep False Chips.controller isrStubTable ⟨p, k, some ctx, []⟩ (.accept 0x20) _ :=
    ⟨nextCall_program _ rfl, by rintro ⟨⟩,
      .accept (h.flags.enabled p k) htaken (fun _ => rfl) idleCall_admissible henters⟩
  have hflags := (hfinished.flags handed rfl).resolve_right fun hfrozen => hfrozen.1
  exact ⟨l, q, k', handed, hl, .cons hstep htrace, hfinished.sound, running_tick htick, hflags,
    hfinished.listening⟩

theorem getChar_trace (hstubs : Function.Injective isrStubTable) (p : Chips) (k : Kernel)
    (ctx : Context) : ∃ l, (∀ e ∈ l, e = .kernelCode) ∧
      Trace (GuardedStep False Chips.controller isrStubTable) ⟨p, k, some ctx, []⟩
        (.software 0x30 getChar :: l) ⟨p, k, some ctx, []⟩ := by
  have hstored : KernelCall.Steps Chips.controller (.store 0x1000) ⟨false, k, p⟩ () ⟨false, k, p⟩ :=
    ⟨by decide, rfl⟩
  have hhandler : Finishes False (mainInterruptHandler 0x30 ctx getChar) ⟨false, k, p⟩ .resume
      ⟨false, k, p⟩ := ⟨(), _, hstored, guarded_of_ne (by rintro _ ⟨⟩) _, rfl, rfl⟩
  obtain ⟨l, hl, htrace⟩ := hhandler.handler (some ctx) (.inr ⟨rfl, rfl⟩)
  obtain ⟨m, henters⟩ := exists_enters hstubs 0x30 ctx getChar ⟨p, k, some ctx, []⟩
  obtain rfl := Enters.eq hstubs henters
  have hvector : softwareVector (initializeIdt isrStubTable) 0x30 = UInt8.ofNat (0x30 : Fin 64) :=
    (softwareVector_initializeIdt isrStubTable 0x30).trans (if_pos rfl)
  rw [← hvector] at henters
  have hstep : GuardedStep False Chips.controller isrStubTable ⟨p, k, some ctx, []⟩
      (.software 0x30 getChar) _ :=
    ⟨nextCall_program _ rfl, by rintro ⟨⟩, .software rfl rfl trivial henters⟩
  exact ⟨l, hl, .cons hstep htrace⟩

end Serving

def shellEntry : DirectoryEntry :=
  { DirectoryEntry.zero with
    name := shellRequest.name
    userAttribute := uattrNotEmpty
    clusterLow := 6
    filesize := 2048 }

def binTable : DirectoryTable := Function.update (fun _ => .zero) 2 shellEntry

/-- A formatted disk with a folder in cluster 5 that holds the shell. -/
def shellStorage : Storage :=
  { (((createFat32 blankStorage).setCell 5 fatEndOfFile).setCell 6 fatEndOfFile).writeFat.writeClusters
      (5 : Cell).number (tableLayout binTable) with
    journal := [] }

theorem shellStorage_volume : shellStorage.volume = Function.update
    (((createFat32 blankStorage).setCell 5 fatEndOfFile).setCell 6 fatEndOfFile).writeFat.volume 5
      (tableLayout binTable) := volume_writeClusters _ 5 _

theorem reboot_shellStorage : reboot shellStorage.disk = shellStorage := by
  have hsigned : Signed shellStorage.volume := by
    rw [Signed, shellStorage_volume, Function.update_of_ne (by decide),
      volume_writeFat_of_ne _ (by decide)]
    exact createFat32_signed blankStorage
  have hfat : shellStorage.volume.fat = shellStorage.clusterMap := by
    rw [shellStorage_volume, Volume.fat, Function.update_of_ne (by decide)]
    exact fat_writeFat _
  exact (reboot_signed hsigned).trans (congrArg (Storage.mk · shellStorage.disk []) hfat)

theorem read_shell : ∃ c, FileSystem.read shellRequest shellStorage = .ok (0, [(0, c)]) := by
  have hcell : cellAt shellRequest.parentClusterNumber = .ok 5 := rfl
  have hdir : ¬shellStorage.clusterMap 5 ≠ fatEndOfFile := by decide
  have htable : shellStorage.directoryTable shellRequest.parentClusterNumber = binTable := by
    change tableLayout.symm (shellStorage.volume 5) = binTable
    rw [shellStorage_volume, Function.update_self, Equiv.symm_apply_apply]
  have hfind : (List.finRange 64).find? (fun i => shellRequest.Matches (binTable i)) = some 2 := by
    decide
  have hend : shellStorage.clusterMap 6 = fatEndOfFile := by decide
  have hwalk : readChain shellStorage walkFuel 6 0 = .ok [(0, readClusters 6 shellStorage.disk)] := by
    have hsix : cellAt 6 = .ok 6 := rfl
    rw [walkFuel, readChain, if_neg (by decide), hsix]
    dsimp only
    rw [hend, readChain, if_pos rfl]
  rw [FileSystem.read, hcell]
  dsimp only
  rw [if_neg hdir, htable, hfind]
  dsimp only
  have hcount : (clusterCount (binTable 2).filesize).toNat = 1 :=
    clusterCount_of_valid (by decide : (binTable 2).filesize.toNat ≤ maxFileSize)
  have hroom : ¬(shellRequest.bufferSize / clusterSize).toNat <
      (clusterCount (binTable 2).filesize).toNat := by
    rw [hcount]
    decide
  rw [if_neg (by decide), if_neg hroom]
  have hcluster : (binTable 2).cluster = 6 := rfl
  have hbuf : shellRequest.buf = 0 := rfl
  rw [hcluster, hbuf, hwalk]
  exact ⟨_, rfl⟩

theorem create_shell : ∃ k, k.processListUsed 0 = true ∧
    processCreateUserProcess shellStorage shellRequest kernelStart = .ok (processCreateSuccess, k) := by
  obtain ⟨c, hread⟩ := read_shell
  obtain ⟨d, t, ht, hcreate⟩ :=
    shell_admitted.create_low kernelStart_isolated rfl (by decide) hread fun st hst k hk => by
      rw [List.mem_singleton.mp hst, UInt32.toNat_add, UInt32.toNat_ofNat', UInt32.toNat_zero]
      omega
  refine ⟨_, ?_, hcreate⟩
  change t.processListUsed 0 = true
  rw [ht.used, Function.update_self]

theorem shell_loads : Guarded False (.process (.create shellStorage shellRequest)) kernelStart := by
  obtain ⟨k, -, hcreate⟩ := create_shell
  refine .inr fun event heq => ?_
  obtain rfl := KernelCall.process.inj heq
  rintro ⟨fs, request, k', hevent, hfails⟩
  obtain ⟨rfl, rfl⟩ := Process.Event.create.inj hevent
  exact absurd (Prod.mk.inj (Except.ok.inj (hcreate.symm.trans hfails))).1 (by decide)

def someStubs (i : Fin 64) : UInt32 := UInt32.ofNat i

theorem someStubs_injective : Function.Injective someStubs := by
  intro i j hij
  have hval := congrArg UInt32.toNat hij
  rw [someStubs, someStubs, UInt32.toNat_ofNat', UInt32.toNat_ofNat'] at hval
  omega

def resetPic : Pic := ⟨.ready, 0, 0, 0, 0, fun _ => false⟩

def resetChips : Chips := ⟨⟨resetPic, fun _ => false⟩, ⟨resetPic, fun _ => false⟩⟩

/-- The first process is created from what the boot finds on the disk. -/
abbrev bootFrom (disk : Store Block) (p : Chips) : Processor Chips :=
  atBoot 4 Disk.zeroBuffer (reboot disk) p

section Shell
variable (isrStubTable : Fin 64 → UInt32) (p : Chips)

theorem boot_with_shell : ∃ q k ctx, Run (GuardedStep False Chips.controller isrStubTable)
    (bootFrom shellStorage.disk p) ⟨q, k, some ctx, []⟩ ∧ Serving q k ctx := by
  rw [bootFrom, reboot_shellStorage]
  obtain ⟨k, hused, hcreate⟩ := create_shell
  obtain ⟨ctx, k', hswitch⟩ := switch_returns hcreate hused
  obtain ⟨q, hrun, hlisten⟩ := boot_run isrStubTable (Disk.Ata.drive_spec 4) (by decide : 2048 ≤ 8192)
    (Disk.freshDrive_rests shellStorage.disk) Disk.zeroBuffer p shell_loads hcreate hswitch
  obtain ⟨hsound, hctx⟩ := Sound.start shell_loads hcreate hswitch
  have hpreemptible := hctx.resolve_right fun h => h.1
  exact ⟨q, k', ctx, hrun, hsound, running_tick (start_eq_timerTick ctx hcreate hswitch), hpreemptible,
    hlisten⟩

/-- Once the shell runs, a key is pressed and the time of the timer comes; the timer is served, and then
a program gets a character. -/
theorem shell_session (hstubs : Function.Injective isrStubTable) : ∃ q k ctx q' k' handed l l',
    Run (ContainedStep Chips.controller isrStubTable) (bootFrom shellStorage.disk p)
      ⟨q, k, some ctx, []⟩ ∧
    q.master.requested 0 = true ∧ q.master.requested 1 = true ∧
    Trace (ContainedStep Chips.controller isrStubTable) ⟨q, k, some ctx, []⟩
      (.accept 0x20 :: (l ++ .software 0x30 getChar :: l')) ⟨q', k', some handed, []⟩ ∧
    Serving q' k' handed ∧ ∀ e ∈ l ++ l', e = .kernelCode := by
  obtain ⟨q, k, ctx, hboot, hserving⟩ := boot_with_shell isrStubTable p
  let pressed : Chips := (q.setLine 1 true).setLine 0 true
  have hkey : GuardedStep False Chips.controller isrStubTable ⟨q, k, some ctx, []⟩ (.raise 1)
      ⟨q.setLine 1 true, k, some ctx, []⟩ := ⟨nextCall_program _ rfl, by rintro ⟨⟩, .raise rfl⟩
  have htime : GuardedStep False Chips.controller isrStubTable
      ⟨q.setLine 1 true, k, some ctx, []⟩ (.raise 0) ⟨pressed, k, some ctx, []⟩ :=
    ⟨nextCall_program _ rfl, by rintro ⟨⟩, .raise rfl⟩
  have hpressed : Serving pressed k ctx :=
    ⟨hserving.sound, hserving.running, hserving.flags, hserving.listening⟩
  obtain ⟨l, q', k', handed, hl, htimer, hserving'⟩ := hpressed.timer hstubs rfl
  obtain ⟨l', hl', hcall⟩ := getChar_trace hstubs q' k' handed
  have hrun := ((hboot.tail hkey).tail htime).mono fun _ _ _ hstep => hstep.2
  have htrace := (htimer.append hcall).mono fun _ _ _ hstep => hstep.2
  refine ⟨pressed, k, ctx, q', k', handed, l, l', hrun, rfl, rfl, htrace, hserving', fun e he => ?_⟩
  exact (List.mem_append.mp he).elim (hl e) (hl' e)

theorem read_formatted_shell : FileSystem.read shellRequest (createFat32 blankStorage) = .ok (2, []) := by
  have hcell : cellAt shellRequest.parentClusterNumber = .ok 5 := rfl
  have hfree : (createFat32 blankStorage).clusterMap 5 ≠ fatEndOfFile :=
    (by decide : formattedMap 5 ≠ fatEndOfFile)
  rw [FileSystem.read, hcell]
  exact if_pos hfree

/-- The boot from a blank drive starts a process all the same, with the flags 0. -/
theorem boot_without_shell : ∃ q k ctx, Run (ContainedStep Chips.controller isrStubTable)
    (bootFrom blankStorage.disk p) ⟨q, k, some ctx, []⟩ ∧ ctx.eflags = 0 := by
  have hempty : isEmptyStorage blankStorage.disk = true :=
    decide_eq_true fun h => absurd (congrFun h 510) (by decide)
  have hformatted : reboot blankStorage.disk = createFat32 blankStorage := Disk.reboot_empty hempty
  rw [bootFrom, hformatted]
  obtain ⟨d, t, ht, heq⟩ := shell_admitted.create_eq kernelStart_isolated.frames
    kernelStart_isolated.exists_unused_directory
  have hcreate := (heq _).trans
    (loadProcess_unreadable kernelStart_isolated.loaded read_formatted_shell (by decide))
  have hused : (t.setCr3 kernelStart.paging.cr3).processListUsed 0 = true := by
    change t.processListUsed 0 = true
    rw [ht.used, Function.update_self]
  obtain ⟨ctx, k', hswitch⟩ := switch_returns hcreate hused
  obtain ⟨q, hrun, -⟩ := boot_run isrStubTable (Disk.Ata.drive_spec 4) (by decide : 2048 ≤ 8192)
    (Disk.freshDrive_rests fun _ _ => 0) Disk.zeroBuffer p (.inl trivial) hcreate hswitch
  refine ⟨q, k', ctx, hrun.mono fun _ _ _ hstep => hstep.2, ?_⟩
  obtain ⟨u, i, hsaved, -, -, hhanded, -⟩ :=
    timerTick_outcome (start_eq_timerTick ctx hcreate hswitch)
  rw [hhanded]
  cases hsaved with
  | nothing hnone => exact eflags_create_unreadable hcreate i
  | slot j hj =>
    have hrunning : (t.setCr3 kernelStart.paging.cr3).currentRunningPid = noProcessRunning := ht.running
    have hne : ∀ j : Fin 16, noProcessRunning ≠ UInt32.ofNat j := by decide
    exact absurd (hrunning.symm.trans hj) (hne j)

end Shell

end Os2024.Interrupts
