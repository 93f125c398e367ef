import Os2024.Disk.Transfers
import Os2024.FileSystem.DiskPrograms
import Os2024.FileSystem.TornWrites
import Os2024.Library.CallTranslation

/-! # The accesses of the file system through the ports

Each access of the file system to the disk is a transfer of disk.c from or to some
buffer in memory. A program of such accesses does through the ports what it does on
an ideal disk, and the disks that a cut can leave are those with the first blocks of
its cluster writes, and no others.
-/

namespace Os2024.Disk
open Library.PackedLayout Library.BlockStore Library.CallTrees FileSystem

variable {δ : Type} {D : Drive δ} {d : δ} {fuel capacity : ℕ} {disk : FileSystem.Disk}

/-- Where the block or the cluster of an access is in memory, and what else is there. -/
structure Buffer where
  ptr : UInt32
  mem : Memory

namespace Buffer

def readBlock (fuel : ℕ) (b : Buffer) (lba : UInt32) : PortProg Block := do
  let mem ← readBlocks fuel b.ptr lba 1 b.mem
  pure (mem.load 512 b.ptr)

def writeBlock (fuel : ℕ) (b : Buffer) (lba : UInt32) (block : Block) : PortProg Unit :=
  writeBlocks fuel b.ptr lba 1 (b.mem.store b.ptr block)

def readCluster (fuel : ℕ) (b : Buffer) (n : UInt32) : PortProg Cluster := do
  let mem ← readClusters fuel b.ptr n 1 b.mem
  pure (mem.load 2048 b.ptr)

def writeCluster (fuel : ℕ) (b : Buffer) (n : UInt32) (data : Cluster) : PortProg Unit :=
  writeClusters fuel b.ptr n 1 (b.mem.store b.ptr data)

end Buffer

/-- The function of disk.c or fat32.c that makes an access. -/
def transfer (fuel : ℕ) (buffer : DiskCall → Buffer) : (c : DiskCall) → PortProg c.Answer
  | .readBlock lba => (buffer (.readBlock lba)).readBlock fuel lba
  | .writeBlock lba block => (buffer (.writeBlock lba block)).writeBlock fuel lba block
  | .readCluster n => (buffer (.readCluster n)).readCluster fuel n
  | .writeCluster n data => (buffer (.writeCluster n data)).writeCluster fuel n data

theorem load_store {n : ℕ} (hn : n ≤ 2 ^ 32) (mem : Memory) (ptr : UInt32) (data : Bytes n) :
    (mem.store ptr data).load n ptr = data := by
  funext i
  have hi := i.isLt
  have hoff : (ptr + UInt32.ofNat i.val - ptr).toNat = i.val := by
    rw [add_sub_cancel_left, UInt32.toNat_ofNat', Nat.mod_eq_of_lt (by omega)]
  simp only [Memory.load, Memory.store, hoff, hi, dif_pos]

theorem cluster_fits (c : Cell) (hcapacity : 2048 ≤ capacity) :
    (clusterToLba c.number).toNat % 2 ^ 28 = (clusterToLba c.number).toNat ∧
      (clusterToLba c.number).toNat % 2 ^ 28 + (1 * clusterBlockCount.toUInt8).toNat ≤ capacity := by
  have hc := c.isLt
  have hfour : (1 * clusterBlockCount.toUInt8).toNat = 4 := by decide
  rw [clusterToLba_number, hfour]
  omega

theorem run_readCluster (hD : D.Spec fuel) (h : D.Rests disk capacity d)
    (hcapacity : 2048 ≤ capacity) (b : Buffer) (c : Cell) :
    ∃ d', (b.readCluster fuel c.number).run D.exec d = .ok (FileSystem.readClusters c.number disk, d') ∧
      D.Rests disk capacity d' := by
  obtain ⟨hlow, hfit⟩ := cluster_fits c hcapacity
  obtain ⟨d', hrun, hd'⟩ := run_readBlocks hD h b.ptr b.mem (by decide) hfit
  rw [hlow] at hrun
  have hrun' : (readClusters fuel b.ptr c.number 1 b.mem).run D.exec d =
      .ok (b.mem.store b.ptr (FileSystem.readClusters c.number disk), d') := hrun
  refine ⟨d', ?_, hd'⟩
  rw [Buffer.readCluster, Program.run_bind_ok hrun', Program.run_pure, load_store (by decide)]

theorem firstBlocks_cluster (c : Cell) (mem : Memory) (ptr : UInt32) {k : ℕ} (hk : k ≤ 4) :
    firstBlocks disk (clusterToLba c.number).toNat (mem.element (bytes 512) ptr) k =
      tornWrite disk ⟨c.number, mem.load 2048 ptr⟩ k := by
  have hblocks : ∀ i : Fin 4, clusterBlocks.symm (mem.load 2048 ptr) i =
      mem.element (bytes 512) ptr i.val := fun i => congrFun (bufferBlocks_eq mem ptr 4) i
  funext b
  rw [tornWrite_apply disk _ hk, firstBlocks]
  simp only [hblocks, Fin.val_castLE]

/-- `write_clusters` stores the cluster; stopped, it has stored the first blocks, and it may be
stopped after any number of them. -/
theorem run_writeCluster (hD : D.Spec fuel) (h : D.Rests disk capacity d)
    (hcapacity : 2048 ≤ capacity) (b : Buffer) (c : Cell) (data : Cluster) :
    ∃ d', (b.writeCluster fuel c.number data).run D.exec d = .ok ((), d') ∧
      D.Rests (FileSystem.writeClusters data c.number disk) capacity d' ∧
      (∀ {t}, (b.writeCluster fuel c.number data).Reaches D.exec d t →
        ∃ k ≤ 4, (D.state t).image = tornWrite disk ⟨c.number, data⟩ k) ∧
      ∀ k ≤ 4, ∃ t, (b.writeCluster fuel c.number data).Reaches D.exec d t ∧
        (D.state t).image = tornWrite disk ⟨c.number, data⟩ k := by
  obtain ⟨hlow, hfit⟩ := cluster_fits c hcapacity
  obtain ⟨d', hrun, hd', hreach, hstop⟩ :=
    run_writeBlocks hD h b.ptr (b.mem.store b.ptr data) (by decide) hfit
  rw [hlow] at hd' hreach hstop
  have hdata : (b.mem.store b.ptr data).load 2048 b.ptr = data := load_store (by decide) _ _ _
  have hfirst : ∀ k ≤ 4, firstBlocks disk (clusterToLba c.number).toNat
      ((b.mem.store b.ptr data).element (bytes 512) b.ptr) k = tornWrite disk ⟨c.number, data⟩ k := by
    intro k hk
    rw [firstBlocks_cluster c _ _ hk, hdata]
  refine ⟨d', hrun, ?_, fun ht => ?_, fun k hk => ?_⟩
  · rw [← hdata]
    exact hd'
  · obtain ⟨k, hk, hkt⟩ := hreach ht
    exact ⟨k, hk, hkt.trans (hfirst k hk)⟩
  · obtain ⟨t, ht, hkt⟩ := hstop k hk
    exact ⟨t, ht, hkt.trans (hfirst k hk)⟩

theorem array_one (f : Fin 1 → Block) : (array 1 (bytes 512) f : Bytes 512) = f 0 := by
  funext b
  have hb : (finProdFinEquiv ((0 : Fin 1), b) : Fin (1 * 512)) = b := by
    apply Fin.ext
    change b.val + 512 * 0 = b.val
    rw [Nat.mul_zero, Nat.add_zero]
  have happly := array_apply (bytes 512) f 0 b
  rw [hb] at happly
  exact happly

theorem run_readBlock (hD : D.Spec fuel) (h : D.Rests disk capacity d) (hcapacity : 2048 ≤ capacity)
    (b : Buffer) {lba : UInt32} (hlba : lba.toNat < 2048) :
    ∃ d', (b.readBlock fuel lba).run D.exec d = .ok (disk lba.toNat, d') ∧
      D.Rests disk capacity d' := by
  have hlow : lba.toNat % 2 ^ 28 = lba.toNat := Nat.mod_eq_of_lt (by omega)
  have hone : (1 : UInt8).toNat = 1 := rfl
  obtain ⟨d', hrun, hd'⟩ := run_readBlocks hD h b.ptr b.mem (by decide : (1 : UInt8) ≠ 0)
    (by rw [hlow, hone]; omega)
  rw [hlow] at hrun
  have hblock : (array 1 (bytes 512) (readRange disk lba.toNat 1) : Bytes 512) = disk lba.toNat :=
    array_one _
  have hrun' : (readBlocks fuel b.ptr lba 1 b.mem).run D.exec d =
      .ok (b.mem.store b.ptr (disk lba.toNat), d') := by
    rw [← hblock]
    exact hrun
  refine ⟨d', ?_, hd'⟩
  rw [Buffer.readBlock, Program.run_bind_ok hrun', Program.run_pure, load_store (by decide)]

theorem run_writeBlock (hD : D.Spec fuel) (h : D.Rests disk capacity d) (hcapacity : 2048 ≤ capacity)
    (b : Buffer) {lba : UInt32} (hlba : lba.toNat < 2048) (block : Block) :
    ∃ d', (b.writeBlock fuel lba block).run D.exec d = .ok ((), d') ∧
      D.Rests (writeRange disk lba.toNat fun _ : Fin 1 => block) capacity d' := by
  have hlow : lba.toNat % 2 ^ 28 = lba.toNat := Nat.mod_eq_of_lt (by omega)
  have hone : (1 : UInt8).toNat = 1 := rfl
  obtain ⟨d', hrun, hd', -, -⟩ := run_writeBlocks hD h b.ptr (b.mem.store b.ptr block)
    (by decide : (1 : UInt8) ≠ 0) (by rw [hlow, hone]; omega)
  have hblock : bufferBlocks (b.mem.store b.ptr block) b.ptr 1 = fun _ => block := by
    rw [bufferBlocks_eq]
    funext i
    obtain rfl : i = 0 := Subsingleton.elim _ _
    have hzero : b.ptr + UInt32.ofNat (512 * 0) = b.ptr := by simp
    change (b.mem.store b.ptr block).load 512 (b.ptr + UInt32.ofNat (512 * 0)) = block
    rw [hzero]
    exact load_store (by decide) _ _ _
  rw [hlow] at hd'
  refine ⟨d', hrun, ?_⟩
  rw [← hblock]
  exact hd'

theorem inClusters_eq_ok {lba : UInt32} (h : inClusters lba = .ok ()) : lba.toNat < 2048 := by
  rw [inClusters] at h
  split_ifs at h with hlba
  exact hlba

theorem map_eq_ok {α β : Type} {e : Except Fault α} {f : α → β} {b : β} (h : e.map f = .ok b) :
    ∃ a, e = .ok a ∧ f a = b := by
  cases e with
  | error _ => cases h
  | ok a => exact ⟨a, rfl, Except.ok.inj h⟩

/-- Each access does through the ports what it does on the ideal disk. -/
theorem run_transfer (hD : D.Spec fuel) (hcapacity : 2048 ≤ capacity) (buffer : DiskCall → Buffer)
    (c : DiskCall) (d : δ) (x : Backing) (a : c.Answer) (x' : Backing)
    (h : D.Rests x.1 capacity d) (hc : c.exec x = .ok (a, x')) :
    ∃ d', (transfer fuel buffer c).run D.exec d = .ok (a, d') ∧ D.Rests x'.1 capacity d' := by
  cases c with
  | readBlock lba =>
    obtain ⟨_, hin, heq⟩ := map_eq_ok hc
    obtain ⟨rfl, rfl⟩ := Prod.mk.inj heq
    exact run_readBlock hD h hcapacity _ (inClusters_eq_ok hin)
  | writeBlock lba block =>
    obtain ⟨_, hin, heq⟩ := map_eq_ok hc
    obtain ⟨-, rfl⟩ := Prod.mk.inj heq
    exact run_writeBlock hD h hcapacity _ (inClusters_eq_ok hin) block
  | readCluster n =>
    obtain ⟨c, hcell, heq⟩ := map_eq_ok hc
    obtain ⟨rfl, rfl⟩ := Prod.mk.inj heq
    obtain rfl := cellAt_eq_ok hcell
    exact run_readCluster hD h hcapacity _ c
  | writeCluster n data =>
    obtain ⟨c, hcell, heq⟩ := map_eq_ok hc
    obtain ⟨-, rfl⟩ := Prod.mk.inj heq
    obtain rfl := cellAt_eq_ok hcell
    obtain ⟨d', hrun, hd', -, -⟩ := run_writeCluster hD h hcapacity
      (buffer (.writeCluster c.number data)) c data
    exact ⟨d', hrun, hd'⟩

/-- A program does through the ports what it does on the ideal disk. -/
theorem run_program (hD : D.Spec fuel) (hcapacity : 2048 ≤ capacity) (buffer : DiskCall → Buffer)
    {α : Type} {p : DiskProg α} {x x' : Backing} {a : α} (h : D.Rests x.1 capacity d)
    (hp : p.run DiskCall.exec x = .ok (a, x')) :
    ∃ d', (p.translate (transfer fuel buffer)).run D.exec d = .ok (a, d') ∧
      D.Rests x'.1 capacity d' :=
  Program.run_translate (R := fun d x => D.Rests x.1 capacity d)
    (fun c d x a x' => run_transfer hD hcapacity buffer c d x a x') h hp

theorem tornReplay_zero (ws : List ClusterWrite) : tornReplay disk ws 0 = disk := by
  cases ws with
  | nil => rfl
  | cons w ws =>
    funext b
    rw [tornReplay, if_pos (by omega), tornWrite_apply disk w (Nat.zero_le 4)]
    exact writeRange_outside disk _ _ b (by omega)

theorem tornWrite_four (w : ClusterWrite) :
    tornWrite disk w 4 = FileSystem.writeClusters w.data w.clusterNumber disk := by
  funext b
  rw [tornWrite_apply disk w le_rfl]
  rfl

theorem tornReplay_first (w : ClusterWrite) (ws : List ClusterWrite) {k : ℕ} (hk : k ≤ 4) :
    tornReplay disk (w :: ws) k = tornWrite disk w k := by
  rw [tornReplay]
  split_ifs with hlt
  · rfl
  · obtain rfl : k = 4 := by omega
    rw [tornWrite_four, Nat.sub_self, tornReplay_zero]

theorem tornReplay_later (w : ClusterWrite) (ws : List ClusterWrite) (n : ℕ) :
    tornReplay disk (w :: ws) (n + 4) =
      tornReplay (FileSystem.writeClusters w.data w.clusterNumber disk) ws n := by
  rw [tornReplay, if_neg (by omega), Nat.add_sub_cancel]

theorem Buffer.readBlock_quiet (b : Buffer) (lba : UInt32) : (b.readBlock fuel lba).Uses Quiet :=
  (readBlocks_quiet _ _ _ _).bind fun _ => by trivial

theorem Buffer.readCluster_quiet (b : Buffer) (n : UInt32) : (b.readCluster fuel n).Uses Quiet :=
  (readBlocks_quiet _ _ _ _).bind fun _ => by trivial

theorem transfer_onDrive (buffer : DiskCall → Buffer) (c : DiskCall) :
    (transfer fuel buffer c).Uses OnDrive := by
  cases c with
  | readBlock lba => exact ((buffer _).readBlock_quiet lba).mono fun _ h => h.1
  | writeBlock lba block => exact writeBlocks_onDrive _ _ _ _
  | readCluster n => exact ((buffer _).readCluster_quiet n).mono fun _ h => h.1
  | writeCluster n data => exact writeBlocks_onDrive _ _ _ _

/-- What an access that writes no block does before a program goes on: a cut in it leaves the disk
as it is. -/
theorem cuts_of_quiet (hD : D.Spec fuel) {α β : Type} {p : PortProg β} {q : β → PortProg α}
    {P : FileSystem.Disk → Prop} {b : β} {d₁ : δ} (hp : p.Uses Quiet) (h : D.Rests disk capacity d)
    (hrun : p.run D.exec d = .ok (b, d₁)) (hdisk : P disk)
    (hq : ∀ image, (∃ t, (q b).Reaches D.exec d₁ t ∧ (D.state t).image = image) ↔ P image)
    (image : FileSystem.Disk) :
    (∃ t, (p >>= q).Reaches D.exec d t ∧ (D.state t).image = image) ↔ P image := by
  constructor
  · rintro ⟨t, ht, rfl⟩
    rcases ht.of_bind hrun with hhere | hthere
    · rw [reaches_image hD hp hhere, h.image]
      exact hdisk
    · exact (hq _).mp ⟨t, hthere, rfl⟩
  · intro himage
    obtain ⟨t, ht, heq⟩ := (hq image).mpr himage
    exact ⟨t, Program.reaches_bind.mpr (.inr ⟨b, d₁, hrun, ht⟩), heq⟩

/-- The disks that a cut of a program can leave are the disk with the first blocks of its cluster
writes. -/
theorem cuts_program (hD : D.Spec fuel) (hcapacity : 2048 ≤ capacity) (buffer : DiskCall → Buffer)
    {α : Type} {p : DiskProg α} (hp : p.Uses OnDisk.KeepsBlocks) {x x' : Backing} {a : α}
    (h : D.Rests x.1 capacity d) (hrun : p.run DiskCall.exec x = .ok (a, x')) :
    ∃ ws, x' = (replay x.1 ws, x.2 ++ ws) ∧ ∀ image,
      (∃ t, (p.translate (transfer fuel buffer)).Reaches D.exec d t ∧ (D.state t).image = image) ↔
        ∃ n, image = tornReplay x.1 ws n := by
  induction p generalizing d x with
  | ret b =>
    obtain ⟨-, rfl⟩ := Prod.mk.inj (Except.ok.inj hrun)
    refine ⟨[], by rw [List.append_nil]; rfl, fun image => ⟨?_, ?_⟩⟩
    · rintro ⟨t, rfl, rfl⟩
      exact ⟨0, h.image⟩
    · rintro ⟨n, rfl⟩
      exact ⟨d, rfl, h.image⟩
  | fail e => cases hrun
  | call c next ih =>
    obtain ⟨b, x₁, hc, hrest⟩ := Program.of_run_bind (p := Program.perform c) (f := next) hrun
    rw [Program.run_perform] at hc
    obtain ⟨d₁, hcall, h₁⟩ := run_transfer hD hcapacity buffer c d x b x₁ h hc
    obtain ⟨ws, rfl, hcuts⟩ := ih b (hp.2 b) h₁ hrest
    rw [Program.translate]
    cases c with
    | readBlock lba =>
      obtain ⟨_, -, heq⟩ := map_eq_ok hc
      obtain ⟨-, rfl⟩ := Prod.mk.inj heq
      have hquiet : (transfer fuel buffer (.readBlock lba)).Uses Quiet :=
        Buffer.readBlock_quiet _ lba
      exact ⟨ws, rfl, cuts_of_quiet (P := fun image => ∃ n, image = tornReplay x.1 ws n) hD hquiet h
        hcall ⟨0, (tornReplay_zero ws).symm⟩ hcuts⟩
    | writeBlock lba block => exact absurd rfl (hp.1 lba block)
    | readCluster n =>
      obtain ⟨_, -, heq⟩ := map_eq_ok hc
      obtain ⟨-, rfl⟩ := Prod.mk.inj heq
      have hquiet : (transfer fuel buffer (.readCluster n)).Uses Quiet :=
        Buffer.readCluster_quiet _ n
      exact ⟨ws, rfl, cuts_of_quiet (P := fun image => ∃ n, image = tornReplay x.1 ws n) hD hquiet h
        hcall ⟨0, (tornReplay_zero ws).symm⟩ hcuts⟩
    | writeCluster n data =>
      obtain ⟨c, hcell, heq⟩ := map_eq_ok hc
      obtain ⟨-, rfl⟩ := Prod.mk.inj heq
      obtain rfl := cellAt_eq_ok hcell
      obtain ⟨-, -, -, hreach, hstop⟩ := run_writeCluster hD h hcapacity
        (buffer (.writeCluster c.number data)) c data
      have hlater : ∀ n, tornReplay x.1 (⟨c.number, data⟩ :: ws) (n + 4) =
          tornReplay (FileSystem.writeClusters data c.number x.1) ws n :=
        tornReplay_later ⟨c.number, data⟩ ws
      have hrest_cuts : ∀ image, (∃ t, ((next b).translate (transfer fuel buffer)).Reaches D.exec d₁ t ∧
          (D.state t).image = image) ↔
            ∃ n, image = tornReplay (FileSystem.writeClusters data c.number x.1) ws n := hcuts
      refine ⟨⟨c.number, data⟩ :: ws, by rw [List.append_assoc]; rfl, fun image => ⟨?_, ?_⟩⟩
      · rintro ⟨t, ht, rfl⟩
        rcases Program.Reaches.of_bind ht hcall with hhere | hthere
        · obtain ⟨k, hk, hkt⟩ := hreach hhere
          exact ⟨k, hkt.trans (tornReplay_first _ _ hk).symm⟩
        · obtain ⟨n, hn⟩ := (hrest_cuts _).mp ⟨t, hthere, rfl⟩
          exact ⟨n + 4, hn.trans (hlater n).symm⟩
      · rintro ⟨n, rfl⟩
        by_cases hn : n ≤ 4
        · obtain ⟨t, ht, hkt⟩ := hstop n hn
          exact ⟨t, Program.reaches_bind.mpr (.inl ht), hkt.trans (tornReplay_first _ _ hn).symm⟩
        · obtain ⟨m, rfl⟩ := Nat.exists_eq_add_of_le' (by omega : 4 ≤ n)
          obtain ⟨t, ht, heq⟩ := (hrest_cuts _).mpr ⟨m, rfl⟩
          exact ⟨t, Program.reaches_bind.mpr (.inr ⟨b, d₁, hcall, ht⟩), heq.trans (hlater m).symm⟩

end Os2024.Disk
