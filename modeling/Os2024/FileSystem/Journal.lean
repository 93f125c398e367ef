import Os2024.FileSystem.Volume

/-! # From the disk to the volume, one atomic write at a time

A cluster write of the driver updates one cluster of the volume. The journal of an
operation lists its writes, so the disk after any prefix of them is a replay. A
write is harmless to a volume when it misses everything in use; whatever prefix of
harmless writes reaches the disk, everything in use is kept.
-/

namespace Os2024.FileSystem
open Library.PackedLayout Library.BlockStore Library.LinkedCells

def diskVolume (disk : Disk) : Volume := fun c => readClusters c.number disk

def Storage.volume (s : Storage) : Volume := diskVolume s.disk

theorem clusterToLba_number (c : Cell) : (clusterToLba c.number).toNat = 4 * c.val := by
  have hc := c.isLt
  have h4 : clusterBlockCount.toNat = 4 := rfl
  rw [clusterToLba, UInt32.toNat_mul, h4, Cell.number_toNat]
  omega

theorem diskVolume_writeClusters (c : Cell) (x : Cluster) (disk : Disk) :
    diskVolume (writeClusters x c.number disk) = Function.update (diskVolume disk) c x := by
  funext d
  by_cases hd : d = c
  · subst d
    rw [Function.update_self, diskVolume, readClusters, writeClusters, readRange_writeRange_same,
      Equiv.apply_symm_apply]
  · have hne : d.val ≠ c.val := fun h => hd (Fin.ext h)
    rw [Function.update_of_ne hd, diskVolume, readClusters, writeClusters,
      readRange_writeRange_disjoint]
    · rfl
    · rw [clusterToLba_number, clusterToLba_number]
      omega

@[simp] theorem volume_writeClusters (s : Storage) (c : Cell) (x : Cluster) :
    (s.writeClusters c.number x).volume = Function.update s.volume c x :=
  diskVolume_writeClusters c x s.disk

@[simp] theorem clusterMap_writeClusters (s : Storage) (n : UInt32) (x : Cluster) :
    (s.writeClusters n x).clusterMap = s.clusterMap := rfl

@[simp] theorem volume_setCell (s : Storage) (c : Cell) (x : UInt32) :
    (s.setCell c x).volume = s.volume := rfl

@[simp] theorem clusterMap_setCell (s : Storage) (c : Cell) (x : UInt32) :
    (s.setCell c x).clusterMap = Function.update s.clusterMap c x := rfl

@[simp] theorem clusterMap_writeFat (s : Storage) : s.writeFat.clusterMap = s.clusterMap := rfl

theorem volume_writeFat (s : Storage) :
    s.writeFat.volume = Function.update s.volume 1 (fatLayout s.clusterMap) :=
  volume_writeClusters s 1 _

theorem fat_writeFat (s : Storage) : s.writeFat.volume.fat = s.clusterMap := by
  rw [volume_writeFat, Volume.fat, Function.update_self, Equiv.symm_apply_apply]

theorem volume_writeFat_of_ne (s : Storage) {c : Cell} (hc : c ≠ 1) :
    s.writeFat.volume c = s.volume c := by
  rw [volume_writeFat, Function.update_of_ne hc]

theorem fat_writeClusters (s : Storage) {c : Cell} (hc : c ≠ 1) (x : Cluster) :
    (s.writeClusters c.number x).volume.fat = s.volume.fat := by
  rw [Volume.fat, volume_writeClusters, Function.update_of_ne (Ne.symm hc), Volume.fat]

theorem directoryTable_number (s : Storage) (d : Cell) :
    s.directoryTable d.number = s.volume.table d := rfl

@[simp] theorem cellAt_number (c : Cell) : cellAt c.number = .ok c := by
  have hc : c.number.toNat < 512 := by
    rw [Cell.number_toNat]
    exact c.isLt
  rw [cellAt, dif_pos hc]
  exact congrArg _ (Fin.ext (Cell.number_toNat c))

theorem cellAt_eq_ok {n : UInt32} {c : Cell} (h : cellAt n = .ok c) : n = c.number := by
  rw [cellAt] at h
  split_ifs at h with hn
  obtain rfl := Except.ok.inj h
  apply UInt32.toNat_inj.mp
  rw [Cell.number_toNat]

theorem cellAt_eq_error {n : UInt32} (h : 512 ≤ n.toNat) : cellAt n = .error .outOfBounds := by
  rw [cellAt, dif_neg (by omega)]

def replay (disk : Disk) (ws : List ClusterWrite) : Disk :=
  ws.foldl (fun disk w => writeClusters w.data w.clusterNumber disk) disk

/-- From `s` to `s'` exactly the listed writes reached the disk. -/
structure Wrote (s s' : Storage) (ws : List ClusterWrite) : Prop where
  journal : s'.journal = s.journal ++ ws
  disk : s'.disk = replay s.disk ws

namespace Wrote
variable {s s' s'' : Storage} {ws ws' : List ClusterWrite}

theorem refl (s : Storage) : Wrote s s [] := ⟨(List.append_nil _).symm, rfl⟩

theorem trans (h : Wrote s s' ws) (h' : Wrote s' s'' ws') : Wrote s s'' (ws ++ ws') where
  journal := by rw [h'.journal, h.journal, List.append_assoc]
  disk := by rw [h'.disk, h.disk, replay, replay, replay, List.foldl_append]

theorem writeClusters (h : Wrote s s' ws) (n : UInt32) (x : Cluster) :
    Wrote s (s'.writeClusters n x) (ws ++ [⟨n, x⟩]) := h.trans ⟨rfl, rfl⟩

theorem writeFat (h : Wrote s s' ws) :
    Wrote s s'.writeFat (ws ++ [⟨fatClusterNumber, fatLayout s'.clusterMap⟩]) :=
  h.writeClusters _ _

theorem setCell (h : Wrote s s' ws) (c : Cell) (x : UInt32) : Wrote s (s'.setCell c x) ws :=
  ⟨h.journal, h.disk⟩

end Wrote

/-- The write misses the reserved clusters, the root table and everything a live entry owns; a
write of the file allocation table keeps the cells of all of them. -/
def Harmless (v : Volume) (w : ClusterWrite) : Prop :=
  ∃ c : Cell, w.clusterNumber = c.number ∧
    ((c = 1 ∧ ∀ d, d < 3 ∨ v.Owned d → fatLayout.symm w.data d = v.fat d) ∨ (3 ≤ c ∧ ¬v.Owned c))

theorem Harmless.agrees {v : Volume} {w : ClusterWrite} (h : Harmless v w) (hv : v.WellFormed)
    {disk : Disk} (hd : v.Agrees (diskVolume disk)) :
    v.Agrees (diskVolume (writeClusters w.data w.clusterNumber disk)) := by
  obtain ⟨c, hc, hw⟩ := h
  rw [hc, diskVolume_writeClusters]
  constructor
  · intro d hused
    have hdc : d ≠ c := by
      rintro rfl
      rcases hw with ⟨rfl, -⟩ | ⟨hge, ho⟩
      · rcases hused with h | h | h
        · exact absurd h (by decide)
        · exact absurd h (by decide)
        · exact absurd (hv.owned_ge h) (by decide)
      · rcases hused with rfl | rfl | h
        · exact absurd hge (by decide)
        · exact absurd hge (by decide)
        · exact ho h
    rw [Function.update_of_ne hdc]
    exact hd.clusters d hused
  · intro d hused
    rcases hw with ⟨rfl, hcells⟩ | ⟨hge, -⟩
    · rw [Volume.fat, Function.update_self]
      exact hcells d hused
    · have hc1 : (1 : Cell) ≠ c := by
        rintro rfl
        exact absurd hge (by decide)
      rw [Volume.fat, Function.update_of_ne hc1]
      exact hd.cells d hused

/-- Harmless writes keep everything in use, wherever the sequence is cut. -/
theorem agrees_replay {v : Volume} (hv : v.WellFormed) {disk : Disk} {ws : List ClusterWrite}
    (hd : v.Agrees (diskVolume disk)) (hws : ∀ w ∈ ws, Harmless v w) :
    v.Agrees (diskVolume (replay disk ws)) := by
  induction ws generalizing disk with
  | nil => exact hd
  | cons w ws ih =>
    refine ih ((hws w List.mem_cons_self).agrees hv hd) (fun w' hw' => ?_)
    exact hws w' (List.mem_cons_of_mem w hw')

end Os2024.FileSystem
