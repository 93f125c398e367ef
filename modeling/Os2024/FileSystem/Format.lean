import Os2024.FileSystem.WriteEffect

/-! # Formatting and booting

A formatted disk has the signature in its boot sector, a file allocation table
with three cells in use and a root directory without entries. A signed disk is
not formatted again: booting only reloads the table.
-/

namespace Os2024.FileSystem
open Library.PackedLayout Library.BlockStore Library.LinkedCells Relation

theorem boot_block (disk : Disk) : disk bootSector.toNat = clusterBlocks.symm (diskVolume disk 0) 0 := by
  rw [diskVolume, readClusters, Equiv.symm_apply_apply]
  rfl

/-- The boot sector carries the signature. -/
def Signed (v : Volume) : Prop := clusterBlocks.symm (v 0) 0 = fsSignature

theorem isEmptyStorage_eq_false {disk : Disk} (h : Signed (diskVolume disk)) :
    isEmptyStorage disk = false := by
  rw [isEmptyStorage, boot_block disk, h]
  simp

theorem initializeFilesystemFat32_signed {s : Storage} (h : Signed s.volume) :
    initializeFilesystemFat32 s = { s with clusterMap := s.volume.fat } := by
  rw [initializeFilesystemFat32, isEmptyStorage_eq_false h]
  rfl

theorem volume_writeBlock (s : Storage) (lba : UInt32) (b : Block) (c : Cell)
    (h : lba.toNat < 4 * c.val ∨ 4 * c.val + 4 ≤ lba.toNat) :
    (s.writeBlock lba b).volume c = s.volume c := by
  rw [Storage.volume, Storage.volume, diskVolume, diskVolume, readClusters, readClusters,
    Storage.writeBlock, readRange_writeRange_disjoint]
  rw [clusterToLba_number]
  omega

/-- Formatting writes blocks 0 and 4 to 11. -/
theorem createFat32_disk_outside (s : Storage) {lba : ℕ} (h : (0 < lba ∧ lba < 4) ∨ 12 ≤ lba) :
    (createFat32 s).disk lba = s.disk lba := by
  have hroot : (clusterToLba rootClusterNumber).toNat = 8 := rfl
  have hroot' : (clusterToLba 2).toNat = 8 := rfl
  have hfat : (clusterToLba fatClusterNumber).toNat = 4 := rfl
  have hboot : bootSector.toNat = 0 := rfl
  simp only [createFat32, Storage.writeClusters, FileSystem.writeClusters, Storage.writeBlock,
    Storage.writeFat]
  rw [writeRange_outside, writeRange_outside, writeRange_outside, writeRange_outside] <;> omega

theorem createFat32_fat (s : Storage) : (createFat32 s).volume.fat = formattedMap := by
  rw [createFat32, Volume.fat, show rootClusterNumber = (2 : Cell).number from rfl,
    volume_writeClusters, Function.update_of_ne (by decide), volume_writeBlock _ _ _ 1 (by decide)]
  exact fat_writeFat _

theorem createFat32_root (s : Storage) : Volume.FreshTable ((createFat32 s).volume.table 2) := by
  rw [createFat32, Volume.table, show rootClusterNumber = (2 : Cell).number from rfl,
    volume_writeClusters, Function.update_self, Equiv.symm_apply_apply]
  refine ⟨?_, initDirectoryTable_one_live _ _ _ _, fun i hi => initDirectoryTable_of_ge _ _ _ _ hi⟩
  rw [initDirectoryTable_zero]
  rfl

theorem createFat32_ext (s : Storage) (i : Fin 64) :
    ((createFat32 s).volume.table 2 i).ext = fun _ => 0 := by
  rw [createFat32, Volume.table, show rootClusterNumber = (2 : Cell).number from rfl,
    volume_writeClusters, Function.update_self, Equiv.symm_apply_apply, initDirectoryTable_ext]
  rfl

theorem name_of_cluster (x : Cluster) (i : Fin 8) :
    (tableLayout.symm x 0).name i = x (Fin.castLE (by decide) i) := by
  unfold tableLayout
  rfl

theorem clusterBlocks_first (b : Fin 4 → Block) (i : Fin 8) :
    clusterBlocks b (Fin.castLE (by decide) i) = b 0 (Fin.castLE (by decide) i) := by
  fin_cases i <;> rfl

/-- The root is its own parent, and the parent slot gets the name written ahead of the table. -/
theorem createFat32_parentName (s : Storage) :
    ((createFat32 s).volume.table 2 1).name = rootName := by
  rw [createFat32, Volume.table, show rootClusterNumber = (2 : Cell).number from rfl,
    volume_writeClusters, Function.update_self, Equiv.symm_apply_apply, initDirectoryTable,
    Function.update_self]
  funext i
  dsimp only
  rw [name_of_cluster, readClusters, clusterBlocks_first]
  fin_cases i <;> rfl

theorem createFat32_rootName (s : Storage) : ((createFat32 s).volume.table 2 0).name = rootName := by
  rw [createFat32, Volume.table, show rootClusterNumber = (2 : Cell).number from rfl,
    volume_writeClusters, Function.update_self, Equiv.symm_apply_apply, initDirectoryTable_zero]
  funext i
  fin_cases i <;> rfl

theorem createFat32_signed (s : Storage) : Signed (createFat32 s).volume := by
  rw [createFat32, Signed, show rootClusterNumber = (2 : Cell).number from rfl,
    volume_writeClusters, Function.update_of_ne (by decide), volume_writeBlock _ _ _ 0 (by decide),
    volume_writeFat_of_ne _ (by decide), Storage.volume, ← boot_block]
  rfl

namespace Volume
variable {v : Volume}

theorem existing_of_fresh (h : FreshTable (v.table 2)) {d : Cell} (hd : v.Existing d) : d = 2 := by
  induction hd with
  | refl => rfl
  | tail _ hbd ih =>
    subst ih
    obtain ⟨i, hi, hlive, -⟩ := hbd
    exact absurd hlive (h.not_live hi)

theorem not_liveEntry_of_fresh (h : FreshTable (v.table 2)) (d : Cell) (i : Fin 64) :
    ¬v.LiveEntry d i := by
  rintro ⟨hd, hi, hlive⟩
  obtain rfl := existing_of_fresh h hd
  exact h.not_live hi hlive

theorem wellFormed_of_fresh (h : FreshTable (v.table 2)) (hfat : v.fat = formattedMap) :
    v.WellFormed where
  reserved0 := by rw [hfat]; rfl
  reserved1 := by rw [hfat]; rfl
  rootCell := by rw [hfat]; rfl
  links hd := by
    obtain rfl := existing_of_fresh h hd
    exact ⟨h.1, h.2.1⟩
  free_zero := by
    intro d hd i hfree
    obtain rfl := existing_of_fresh h hd
    refine h.2.2 i (not_lt.mp fun hi => hfree ?_)
    have hi' : i = 0 ∨ i = 1 := by omega
    rcases hi' with rfl | rfl
    · exact h.1
    · exact h.2.1
  names := by
    intro d hd i j hi hlive
    obtain rfl := existing_of_fresh h hd
    exact absurd hlive (h.not_live hi)
  chain he := absurd he (not_liveEntry_of_fresh h _ _)
  disjoint he := absurd he (not_liveEntry_of_fresh h _ _)

end Volume

theorem createFat32_consistent (s : Storage) : (createFat32 s).Consistent where
  wellFormed := Volume.wellFormed_of_fresh (createFat32_root s) (createFat32_fat s)
  cached := createFat32_fat s

theorem formattedMap_free : ((List.finRange 512).filter
    (fun c => formattedMap c = fatEmptyEntry)).length = 509 := by decide +kernel

theorem exists_other_slot (k : Fin 64) : ∃ j : Fin 64, 2 ≤ j ∧ j ≠ k := by
  by_cases h2 : k = 2
  · exact ⟨3, by decide, by rw [h2]; decide⟩
  · exact ⟨2, le_rfl, Ne.symm h2⟩

/-- A formatted disk takes any first entry that is not called like a link slot. -/
theorem write_formatted_journal (s : Storage) (journal : List ClusterWrite) (mem : Memory)
    {request : DriverRequest} (hreq : request.parentClusterNumber = (2 : Cell).number)
    (hfresh : ∀ i, ¬request.Matches ((createFat32 s).volume.table 2 i))
    (hsize : request.bufferSize = 0 ∨ clusterCount request.bufferSize ≠ 0) :
    ∃ s', write mem request { createFat32 s with journal := journal } = .ok (0, s') := by
  refine write_succeeds mem hreq rfl hfresh (i := 2) (by decide)
    ((createFat32_root s).not_live le_rfl) (requiredSlots_pos hsize) ?_
  have hlt := (requiredSlots request.bufferSize).toNat_lt
  refine le_trans ?_ (le_of_eq formattedMap_free.symm)
  omega

theorem write_formatted (s : Storage) (mem : Memory) {request : DriverRequest}
    (hreq : request.parentClusterNumber = (2 : Cell).number)
    (hfresh : ∀ i, ¬request.Matches ((createFat32 s).volume.table 2 i))
    (hsize : request.bufferSize = 0 ∨ clusterCount request.bufferSize ≠ 0) :
    ∃ s', write mem request (createFat32 s) = .ok (0, s') :=
  write_formatted_journal s (createFat32 s).journal mem hreq hfresh hsize

end Os2024.FileSystem
