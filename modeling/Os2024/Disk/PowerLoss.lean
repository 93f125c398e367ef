import Os2024.Disk.Clusters

/-! # Power loss at any access of a port

A state is the table that the file system caches and the drive. A call runs through
the ports to its end, or power is lost at any access of a port, in the middle of a
block or of a cluster; the drive then comes up with the blocks it had stored, and the
kernel boots from them. A drive that holds words back in a cache of its own and loses
them is not considered.
-/

namespace Os2024.Disk
open Library.PackedLayout Library.BlockStore Library.CallTrees Library.Runs FileSystem

/-- The cached table and the drive. -/
structure Mounted (δ : Type) where
  clusterMap : FileAllocationTable
  drive : δ

section Runs
variable {δ : Type} (D : Drive δ) (persists : δ → Store Block) (fuel capacity : ℕ)

def Mounted.storage (m : Mounted δ) : Storage := ⟨m.clusterMap, (D.state m.drive).image, []⟩

def callProgram (buffer : DiskCall → Buffer) (call : Call) (clusterMap : FileAllocationTable) :
    PortProg (Int8 × FileAllocationTable) :=
  (OnDisk.call call clusterMap).translate (transfer fuel buffer)

def readProgram (buffer : DiskCall → Buffer) (request : DriverRequest)
    (clusterMap : FileAllocationTable) : PortProg (Int8 × List (UInt32 × Cluster)) :=
  (OnDisk.read request clusterMap).translate (transfer fuel buffer)

def bootProgram (buffer : DiskCall → Buffer) : PortProg FileAllocationTable :=
  OnDisk.initializeFilesystemFat32.translate (transfer fuel buffer)

theorem bootProgram_onDrive (buffer : DiskCall → Buffer) : (bootProgram fuel buffer).Uses OnDrive :=
  .translate (transfer_onDrive buffer) _

/-- A valid write or delete: it runs to its end, or power is lost at some access of a port, and the
kernel boots from what persists. -/
inductive PortStep : Mounted δ → Call → Mounted δ → Prop
  | completes {m : Mounted δ} {call : Call} {buffer : DiskCall → Buffer} {r : Int8}
      {table : FileAllocationTable} {d' : δ} (changes : ∀ request, call ≠ .read request)
      (valid : call.request.Valid (m.storage D).volume)
      (run : (callProgram fuel buffer call m.clusterMap).run D.exec m.drive = .ok ((r, table), d')) :
      PortStep m call ⟨table, d'⟩
  | cut {m : Mounted δ} {call : Call} {buffer buffer' : DiskCall → Buffer} {t d d' : δ}
      {table : FileAllocationTable} (changes : ∀ request, call ≠ .read request)
      (valid : call.request.Valid (m.storage D).volume)
      (stopped : (callProgram fuel buffer call m.clusterMap).Reaches D.exec m.drive t)
      (power : D.Rests (persists t) capacity d)
      (boot : (bootProgram fuel buffer').run D.exec d = .ok (table, d')) :
      PortStep m call ⟨table, d'⟩

/-- The file system can recover, and no transfer is going on. -/
structure Mounted.Sound (m : Mounted δ) : Prop where
  storage : Recoverable (m.storage D)
  drive : D.Rests (m.storage D).disk capacity m.drive

end Runs

section Steps
variable {δ : Type} {D : Drive δ} {persists : δ → Store Block} {fuel capacity : ℕ} {m m' : Mounted δ}
  {d : δ} {image : Store Block}

/-- The boot program does what `initialize_filesystem_fat32` does on the storage. -/
theorem run_bootProgram (hD : D.Spec fuel) (hcapacity : 2048 ≤ capacity) (buffer : DiskCall → Buffer)
    (h : D.Rests image capacity d) :
    ∃ d', (bootProgram fuel buffer).run D.exec d = .ok ((reboot image).clusterMap, d') ∧
      D.Rests (reboot image).disk capacity d' := by
  have hideal := OnDisk.run_initializeFilesystemFat32 ⟨fun _ => fatEmptyEntry, image, []⟩
  rw [← reboot] at hideal
  generalize reboot image = s at hideal ⊢
  rw [bootProgram]
  generalize OnDisk.initializeFilesystemFat32 = boots at hideal ⊢
  exact run_program hD hcapacity buffer h hideal

/-- A valid call returns, through the ports as on the ideal disk. -/
theorem Mounted.Sound.run_call (hD : D.Spec fuel) (hcapacity : 2048 ≤ capacity)
    (hm : m.Sound D capacity) (buffer : DiskCall → Buffer) {call : Call}
    (hchanges : ∀ request, call ≠ .read request) (hvalid : call.request.Valid (m.storage D).volume) :
    ∃ r s₁ d', ValidStep (m.storage D) call s₁ ∧ call.exec (m.storage D) = .ok (r, s₁) ∧
      (OnDisk.call call m.clusterMap).run DiskCall.exec (m.storage D).backing =
        .ok (OnDisk.outcome (r, s₁)) ∧
      (callProgram fuel buffer call m.clusterMap).run D.exec m.drive = .ok ((r, s₁.clusterMap), d') ∧
      D.Rests s₁.disk capacity d' := by
  obtain ⟨r, s₁, hexec⟩ : ∃ r s₁, call.exec (m.storage D) = .ok (r, s₁) := by
    have hreturns := fun mem => valid_returns hm.storage.toConsistent mem hvalid
    cases call with
    | read request => exact absurd rfl (hchanges request)
    | write mem request => exact (hreturns mem).1
    | delete request => exact (hreturns fun _ => 0).2
  have hideal := OnDisk.run_call hm.storage.toConsistent hvalid
  rw [hexec] at hideal
  obtain ⟨d', hrun, hd'⟩ := run_program hD hcapacity buffer (x := (m.storage D).backing) hm.drive hideal
  exact ⟨r, s₁, d', ⟨hchanges, hvalid, r, hexec⟩, hexec, hideal, hrun, hd'⟩

theorem Mounted.Sound.cuts (hD : D.Spec fuel) (hcapacity : 2048 ≤ capacity) (hm : m.Sound D capacity)
    (buffer : DiskCall → Buffer) {call : Call} (hchanges : ∀ request, call ≠ .read request)
    (hvalid : call.request.Valid (m.storage D).volume) :
    ∃ s₁, ValidStep (m.storage D) call s₁ ∧ ∀ image,
      (∃ t, (callProgram fuel buffer call m.clusterMap).Reaches D.exec m.drive t ∧
        (D.state t).image = image) ↔
        ∃ n, image = tornReplay (m.storage D).disk (newWrites (m.storage D) s₁) n := by
  obtain ⟨r, s₁, d', hstep, -, hideal, -⟩ := hm.run_call hD hcapacity buffer hchanges hvalid
  obtain ⟨ws, hws, hcuts⟩ := cuts_program hD hcapacity buffer (OnDisk.call_keeps hchanges) hm.drive
    hideal
  have hjournal : newWrites (m.storage D) s₁ = ws := by
    have hall : s₁.journal = [] ++ ws := congrArg Prod.snd hws
    rw [newWrites, hall]
    rfl
  refine ⟨s₁, hstep, fun image => ?_⟩
  rw [hjournal]
  exact hcuts image

/-- A step keeps the file system recoverable, and is survived. -/
theorem PortStep.survives (hD : D.Spec fuel) (hthrough : ∀ d, persists d = (D.state d).image)
    (hcapacity : 2048 ≤ capacity) {call : Call} (hm : m.Sound D capacity)
    (h : PortStep D persists fuel capacity m call m') :
    m'.Sound D capacity ∧ Survives (m.storage D) call (m'.storage D) := by
  cases h with
  | @completes buffer r table d' changes valid run =>
    obtain ⟨r', s₁, d₁, hstep, -, -, hrun, hd₁⟩ := hm.run_call hD hcapacity buffer changes valid
    obtain ⟨hout, rfl⟩ := Prod.mk.inj (Except.ok.inj (run.symm.trans hrun))
    obtain ⟨-, rfl⟩ := Prod.mk.inj hout
    have hcrash : CrashStep (m.storage D) (call, none) s₁ := ⟨s₁, hstep, rfl⟩
    have hs₁ := hm.storage.step hcrash
    have hvolume : diskVolume (D.state d').image = s₁.volume := congrArg diskVolume hd₁.image
    have hdrive : D.Rests (D.state d').image capacity d' := ⟨hd₁.phase, rfl, hd₁.capacity⟩
    refine ⟨⟨Recoverable.of_fields hs₁ rfl hd₁.image, hdrive⟩, ?_⟩
    refine (hcrash.survives hm.storage).of_agrees hs₁.wellFormed ?_ ?_
    · exact hvolume ▸ .refl _
    · exact hs₁.cached.symm.trans (congrArg Volume.fat hvolume.symm)
  | @cut buffer buffer' t d d' table changes valid stopped power boot =>
    obtain ⟨s₁, hstep, hcuts⟩ := hm.cuts hD hcapacity buffer changes valid
    obtain ⟨n, hn⟩ := (hcuts _).mp ⟨t, stopped, rfl⟩
    rw [hthrough, hn] at power
    obtain ⟨k, s'', hcrash, hagree, hboot⟩ := torn_crash hm.storage hstep n
    obtain ⟨d₁, hrun, hd₁⟩ := run_bootProgram hD hcapacity buffer' power
    rw [hboot] at hrun hd₁
    obtain ⟨rfl, rfl⟩ := Prod.mk.inj (Except.ok.inj (boot.symm.trans hrun))
    have hstorage : Mounted.storage D ⟨(diskVolume (tornReplay (m.storage D).disk
        (newWrites (m.storage D) s₁) n)).fat, d'⟩ = ⟨(diskVolume (tornReplay (m.storage D).disk
        (newWrites (m.storage D) s₁) n)).fat, tornReplay (m.storage D).disk
        (newWrites (m.storage D) s₁) n, []⟩ := by
      rw [Mounted.storage, hd₁.image]
    have hs'' := hm.storage.step hcrash
    constructor
    · refine ⟨?_, ?_⟩
      · rw [hstorage]
        exact hs''.of_agrees hagree rfl
      · rw [hstorage]
        exact hd₁
    · rw [hstorage]
      exact (hcrash.survives hm.storage).of_agrees hs''.wellFormed hagree rfl

theorem Mounted.Sound.run (hD : D.Spec fuel) (hthrough : ∀ d, persists d = (D.state d).image)
    (hcapacity : 2048 ≤ capacity) (hm : m.Sound D capacity)
    (h : Run (PortStep D persists fuel capacity) m m') : m'.Sound D capacity :=
  h.invariant hm fun _ _ _ hm hstep => (hstep.survives hD hthrough hcapacity hm).1

theorem reboot_empty (hempty : isEmptyStorage image = true) :
    reboot image = createFat32 ⟨fun _ => fatEmptyEntry, image, []⟩ := by
  rw [reboot, initializeFilesystemFat32]
  exact if_pos hempty

theorem Mounted.Sound.formatted (hD : D.Spec fuel) (hcapacity : 2048 ≤ capacity)
    {buffer : DiskCall → Buffer} {d₀ d₁ : δ} {table : FileAllocationTable}
    (hd₀ : D.Rests image capacity d₀) (hempty : isEmptyStorage image = true)
    (hboot : (bootProgram fuel buffer).run D.exec d₀ = .ok (table, d₁)) :
    Mounted.Sound D capacity ⟨table, d₁⟩ := by
  obtain ⟨d', hrun, hd'⟩ := run_bootProgram hD hcapacity buffer hd₀
  have hrecoverable := createFat32_recoverable ⟨fun _ => fatEmptyEntry, image, []⟩
  rw [← reboot_empty hempty] at hrecoverable
  generalize reboot image = s at hrun hd' hrecoverable
  obtain ⟨htable, rfl⟩ := Prod.mk.inj (Except.ok.inj (hboot.symm.trans hrun))
  exact ⟨hrecoverable.of_fields htable hd'.image, hd'.phase, rfl, hd'.capacity⟩

end Steps

/-- The first boot formats an empty drive. In every run from there, reads return what the file system
has stored, every valid call returns and does what it does on an ideal disk, after a cut at any access of a
port the kernel boots again, and every call, complete or cut, is survived. -/
theorem portRun_survives {δ : Type} {D : Drive δ} {persists : δ → Store Block} {fuel capacity : ℕ}
    (hD : D.Spec fuel) (hthrough : ∀ d, persists d = (D.state d).image) (hcapacity : 2048 ≤ capacity)
    {image : Store Block} {d₀ d₁ : δ} {buffer : DiskCall → Buffer} {table : FileAllocationTable}
    (hd₀ : D.Rests image capacity d₀) (hempty : isEmptyStorage image = true)
    (hboot : (bootProgram fuel buffer).run D.exec d₀ = .ok (table, d₁)) {m : Mounted δ}
    (hrun : Run (PortStep D persists fuel capacity) ⟨table, d₁⟩ m) :
    Recoverable (m.storage D) ∧
      (∀ buffer request answer, FileSystem.read request (m.storage D) = .ok answer →
        ∃ d', (readProgram fuel buffer request m.clusterMap).run D.exec m.drive = .ok (answer, d') ∧
          D.Rests (m.storage D).disk capacity d') ∧
      (∀ buffer call, (∀ request, call ≠ .read request) → call.request.Valid (m.storage D).volume →
        (∃ r s₁ d', call.exec (m.storage D) = .ok (r, s₁) ∧
          (callProgram fuel buffer call m.clusterMap).run D.exec m.drive =
            .ok ((r, s₁.clusterMap), d') ∧ D.Rests s₁.disk capacity d') ∧
        ∀ t d buffer', (callProgram fuel buffer call m.clusterMap).Reaches D.exec m.drive t →
          D.Rests (persists t) capacity d → ∃ table' d',
            (bootProgram fuel buffer').run D.exec d = .ok (table', d') ∧
              PortStep D persists fuel capacity m call ⟨table', d'⟩) ∧
      ∀ {call m'}, PortStep D persists fuel capacity m call m' →
        Survives (m.storage D) call (m'.storage D) := by
  have hm := Mounted.Sound.run hD hthrough hcapacity (.formatted hD hcapacity hd₀ hempty hboot) hrun
  refine ⟨hm.storage, fun buffer request answer hanswer => ?_,
    fun buffer call hchanges hvalid => ⟨?_, fun t d buffer' hstopped hpower => ?_⟩,
    fun hstep => (hstep.survives hD hthrough hcapacity hm).2⟩
  · have hideal := OnDisk.run_read request (m.storage D)
    rw [hanswer] at hideal
    exact run_program hD hcapacity buffer (x := (m.storage D).backing) hm.drive hideal
  · obtain ⟨r, s₁, d', -, hexec, -, hcall, hd'⟩ := hm.run_call hD hcapacity buffer hchanges hvalid
    exact ⟨r, s₁, d', hexec, hcall, hd'⟩
  · obtain ⟨d', hboot', -⟩ := run_bootProgram hD hcapacity buffer' hpower
    exact ⟨_, d', hboot', .cut hchanges hvalid hstopped hpower hboot'⟩

def zeroBuffer (_ : DiskCall) : Buffer := ⟨0x8000, fun _ => 0⟩

/-- A blank drive is formatted, and power is lost when the first block of the first cluster of
the note has been stored: the kernel boots from what is there, and makes a folder in the root. -/
theorem portRun_survives_note : ∃ (m m' : Mounted (Ata 4)) (t : Ata 4) (s₁ : Storage),
    (bootProgram 4 zeroBuffer).run (Ata.drive 4).exec (freshDrive fun _ _ => 0) =
      .ok (m.clusterMap, m.drive) ∧
      write (fun _ => 7) noteRequest (m.storage (Ata.drive 4)) = .ok (0, s₁) ∧
      (callProgram 4 zeroBuffer (.write (fun _ => 7) noteRequest) m.clusterMap).Reaches
        (Ata.drive 4).exec m.drive t ∧
      t.state.image = tornReplay m.drive.state.image s₁.journal 1 ∧
      (bootProgram 4 zeroBuffer).run (Ata.drive 4).exec (freshDrive t.state.image) =
        .ok (m'.clusterMap, m'.drive) ∧
      Survives (m.storage (Ata.drive 4)) (.write (fun _ => 7) noteRequest)
        (m'.storage (Ata.drive 4)) ∧
      ∃ r s₂ d', write (fun _ => 0) folderRequest (m'.storage (Ata.drive 4)) = .ok (r, s₂) ∧
        (callProgram 4 zeroBuffer (.write (fun _ => 0) folderRequest) m'.clusterMap).run
          (Ata.drive 4).exec m'.drive = .ok ((r, s₂.clusterMap), d') ∧
        (Ata.drive 4).Rests s₂.disk 8192 d' := by
  have hD := Ata.drive_spec 4
  have hcapacity : 2048 ≤ 8192 := by decide
  have hthrough : ∀ d : Ata 4, d.state.image = ((Ata.drive 4).state d).image := fun _ => rfl
  have hempty : isEmptyStorage (fun _ _ => 0) = true :=
    decide_eq_true fun h => absurd (congrFun h 510) (by decide)
  have hblank := freshDrive_rests fun _ _ => 0
  obtain ⟨d₁, hboot, hd₁⟩ := run_bootProgram hD hcapacity zeroBuffer hblank
  have hm := Mounted.Sound.formatted hD hcapacity hblank hempty hboot
  rw [reboot_empty hempty] at hboot hd₁ hm
  set m : Mounted (Ata 4) := ⟨(createFat32 blankStorage).clusterMap, d₁⟩
  have hstorage : m.storage (Ata.drive 4) = { createFat32 blankStorage with journal := [] } := by
    rw [Mounted.storage, hd₁.image]
    rfl
  have hchanges (mem : Memory) (request : DriverRequest) :
    ∀ request', Call.write mem request ≠ .read request' := by rintro _ ⟨⟩
  have hnote : noteRequest.Valid (m.storage (Ata.drive 4)).volume :=
    ⟨⟨2, rfl, .refl⟩, by decide, by decide⟩
  obtain ⟨s, ⟨-, -, r, hwrite⟩, hcuts⟩ := hm.cuts hD hcapacity zeroBuffer
    (hchanges (fun _ => 7) noteRequest) hnote
  obtain ⟨t, hreaches, himage⟩ := (hcuts _).mpr ⟨1, rfl⟩
  obtain ⟨s₁, hnoted⟩ := write_note_journal (fun _ => 7) []
  rw [← hstorage] at hnoted
  obtain ⟨rfl, rfl⟩ := Prod.mk.inj (Except.ok.inj (hwrite.symm.trans hnoted))
  -- the drive comes up with the blocks that were stored
  obtain ⟨-, -, hcalls, hsurvives⟩ :=
    portRun_survives hD hthrough hcapacity hblank hempty hboot (Run.refl _)
  obtain ⟨table', d', hboot', hstep⟩ := (hcalls zeroBuffer (.write (fun _ => 7) noteRequest)
    (hchanges _ _) hnote).2 t (freshDrive t.state.image) zeroBuffer hreaches (freshDrive_rests _)
  obtain ⟨-, -, hlater, -⟩ :=
    portRun_survives hD hthrough hcapacity hblank hempty hboot ((Run.refl _).tail hstep)
  obtain ⟨r, s₂, d₂, hexec, hrun, hd₂⟩ := (hlater zeroBuffer (.write (fun _ => 0) folderRequest)
    (hchanges _ _) ⟨⟨2, rfl, .refl⟩, by decide, by decide⟩).1
  exact ⟨m, ⟨table', d'⟩, t, s, hboot, hnoted, hreaches, himage, hboot', hsurvives hstep, r, s₂, d₂,
    hexec, hrun, hd₂⟩

end Os2024.Disk
