import Os2024.Library.CallTrees
import Os2024.FileSystem.Invariant

/-! # The functions of fat32.c as programs of disk accesses

The functions again, call by call: each reads the clusters it looks at and writes the
ones it changes, and the table it caches is passed along. Run on an ideal disk of 512
clusters they do what the functions of the storage do.
-/

namespace Os2024.FileSystem
open Library.PackedLayout Library.BlockStore Library.LinkedCells Library.CallTrees

/-- `read_blocks` and `write_blocks` of one block, `read_clusters` and `write_clusters` of one
cluster. -/
inductive DiskCall where
  | readBlock (lba : UInt32)
  | writeBlock (lba : UInt32) (block : Block)
  | readCluster (clusterNumber : UInt32)
  | writeCluster (clusterNumber : UInt32) (data : Cluster)

def DiskCall.Answer : DiskCall → Type
  | readBlock _ => Block
  | writeBlock _ _ => Unit
  | readCluster _ => Cluster
  | writeCluster _ _ => Unit

abbrev DiskProg (α : Type) := Program DiskCall.Answer Fault α

/-- The disk and the journal of its cluster writes. -/
abbrev Backing := Disk × List ClusterWrite

def Storage.backing (s : Storage) : Backing := (s.disk, s.journal)

def inClusters (lba : UInt32) : Except Fault Unit :=
  if lba.toNat < 2048 then .ok () else .error .outOfBounds

def DiskCall.exec : (c : DiskCall) → Backing → Except Fault (c.Answer × Backing)
  | readBlock lba, x => (inClusters lba).map fun _ => (x.1 lba.toNat, x)
  | writeBlock lba block, x =>
    (inClusters lba).map fun _ => ((), (writeRange x.1 lba.toNat fun _ : Fin 1 => block, x.2))
  | readCluster n, x => (cellAt n).map fun _ => (readClusters n x.1, x)
  | writeCluster n data, x =>
    (cellAt n).map fun _ => ((), (writeClusters data n x.1, x.2 ++ [⟨n, data⟩]))

namespace OnDisk

def readBlock (lba : UInt32) : DiskProg Block := Program.perform (DiskCall.readBlock lba)

def writeBlock (lba : UInt32) (block : Block) : DiskProg Unit :=
  Program.perform (DiskCall.writeBlock lba block)

def readCluster (n : UInt32) : DiskProg Cluster := Program.perform (DiskCall.readCluster n)

def writeCluster (n : UInt32) (data : Cluster) : DiskProg Unit :=
  Program.perform (DiskCall.writeCluster n data)

def writeFat (clusterMap : FileAllocationTable) : DiskProg Unit :=
  writeCluster fatClusterNumber (fatLayout clusterMap)

def initDirectoryTable (dirTable : DirectoryTable) (name : Bytes 8) (parentDirCluster : UInt32) :
    DiskProg DirectoryTable := do
  let cb ← readCluster parentDirCluster
  let t : DirectoryTable := tableLayout.symm cb
  let currentDir := { dirTable 0 with
    name := copyName name
    attr := attrSubdirectory
    userAttribute := uattrNotEmpty }
  let parentDir := { dirTable 1 with
    name := (t 0).name
    attr := attrSubdirectory
    userAttribute := uattrNotEmpty
    clusterLow := parentDirCluster.toUInt16
    clusterHigh := (parentDirCluster >>> 16).toUInt16 }
  pure (Function.update (Function.update dirTable 0 currentDir) 1 parentDir)

def isEmptyStorage : DiskProg Bool := do
  let block ← readBlock bootSector
  pure (block ≠ fsSignature)

def createFat32 : DiskProg FileAllocationTable := do
  writeBlock bootSector fsSignature
  writeFat formattedMap
  writeBlock (clusterToLba 2) fun i => (List.ofFn rootName).getD i 0
  let dirTable ← initDirectoryTable (fun _ => .zero) rootName rootClusterNumber
  writeCluster rootClusterNumber (tableLayout dirTable)
  pure formattedMap

def initializeFilesystemFat32 : DiskProg FileAllocationTable := do
  if ← isEmptyStorage then createFat32
  else
    let table ← readCluster fatClusterNumber
    pure (fatLayout.symm table)

def readChain (clusterMap : FileAllocationTable) :
    ℕ → UInt32 → UInt32 → DiskProg (List (UInt32 × Cluster))
  | 0, _, _ => Program.fail .diverges
  | fuel + 1, currentCluster, buf =>
    if currentCluster = fatEndOfFile then pure [] else
    match cellAt currentCluster with
    | .error f => Program.fail f
    | .ok c => do
      let cluster ← readCluster currentCluster
      let stores ← readChain clusterMap fuel (clusterMap c) (buf + clusterSize)
      pure ((buf, cluster) :: stores)

def read (request : DriverRequest) (clusterMap : FileAllocationTable) :
    DiskProg (Int8 × List (UInt32 × Cluster)) :=
  match cellAt request.parentClusterNumber with
  | .error f => Program.fail f
  | .ok parent =>
    if clusterMap parent ≠ fatEndOfFile then pure (2, []) else do
    let cluster ← readCluster request.parentClusterNumber
    let dirTable : DirectoryTable := tableLayout.symm cluster
    match (List.finRange 64).find? (fun i => request.Matches (dirTable i)) with
    | none => pure (2, [])
    | some i =>
      if (dirTable i).attr = 0x10 then pure (1, []) else
      if (request.bufferSize / clusterSize).toNat < (clusterCount (dirTable i).filesize).toNat then
        pure (-1, [])
      else do
        let stores ← readChain clusterMap walkFuel (dirTable i).cluster request.buf
        pure (0, stores)

def writeFolder (request : DriverRequest) (slot : Cell) (clusterMap : FileAllocationTable) :
    DiskProg FileAllocationTable := do
  let childDir ← initDirectoryTable (fun _ => .zero) request.name request.parentClusterNumber
  let child := { childDir 0 with
    clusterLow := slot.number.toUInt16
    clusterHigh := (slot.number >>> 16).toUInt16 }
  writeCluster slot.number (tableLayout (Function.update childDir 0 child))
  let clusterMap := Function.update clusterMap slot fatEndOfFile
  writeFat clusterMap
  pure clusterMap

def writeFile (mem : Memory) :
    List Cell → UInt32 → FileAllocationTable → DiskProg FileAllocationTable
  | [], _, clusterMap => pure clusterMap
  | clusterNum :: rest, buf, clusterMap => do
    let nextCluster := head Cell.number fatEndOfFile rest
    let clusterMap := Function.update clusterMap clusterNum nextCluster
    writeFat clusterMap
    writeCluster clusterNum.number (mem.load 2048 buf)
    writeFile mem rest (buf + clusterSize) clusterMap

def write (mem : Memory) (request : DriverRequest) (clusterMap : FileAllocationTable) :
    DiskProg (Int8 × FileAllocationTable) :=
  match cellAt request.parentClusterNumber with
  | .error f => Program.fail f
  | .ok parent =>
    if clusterMap parent ≠ fatEndOfFile then pure (2, clusterMap) else do
    let cluster ← readCluster request.parentClusterNumber
    let dirTable : DirectoryTable := tableLayout.symm cluster
    match scanSlots request dirTable (List.finRange 64) 0 with
    | none => pure (1, clusterMap)
    | some emptySlot =>
      if emptySlot = 0 then pure (-1, clusterMap) else
      let required := (requiredSlots request.bufferSize).toNat
      let slotBuf := countEmptyFatSlots clusterMap required (List.finRange 512)
      if slotBuf.length < required then pure (-1, clusterMap) else
      match slotBuf with
      | [] => Program.fail .outOfBounds
      | slot :: rest => do
        let clusterMap ← if request.bufferSize = 0 then writeFolder request slot clusterMap
          else writeFile mem (slot :: rest) request.buf clusterMap
        let dirTable := Function.update dirTable emptySlot (newEntry request slot)
        writeCluster request.parentClusterNumber (tableLayout dirTable)
        pure (0, clusterMap)

def freeChain : ℕ → UInt32 → FileAllocationTable → DiskProg FileAllocationTable
  | 0, _, _ => Program.fail .diverges
  | fuel + 1, currentCluster, clusterMap =>
    match cellAt currentCluster with
    | .error f => Program.fail f
    | .ok c => do
      let nextCluster := clusterMap c
      let clusterMap := Function.update clusterMap c fatEmptyEntry
      writeCluster currentCluster fun _ => 0
      if nextCluster = fatEndOfFile then pure clusterMap else freeChain fuel nextCluster clusterMap

def isEmptyFolder (entry : DirectoryEntry) : DiskProg Bool :=
  if entry.IsFolder then do
    let cluster ← readCluster entry.cluster
    pure (FileSystem.isEmptyFolder (tableLayout.symm cluster))
  else pure true

def delete (request : DriverRequest) (clusterMap : FileAllocationTable) :
    DiskProg (Int8 × FileAllocationTable) :=
  match cellAt request.parentClusterNumber with
  | .error f => Program.fail f
  | .ok parent =>
    if clusterMap parent ≠ fatEndOfFile then pure (2, clusterMap) else do
    let cluster ← readCluster request.parentClusterNumber
    let dirTable : DirectoryTable := tableLayout.symm cluster
    match ((List.finRange 64).drop 2).find? (fun i => request.Matches (dirTable i)) with
    | none => pure (1, clusterMap)
    | some i => do
      let currentCluster := (dirTable i).cluster
      let isEmpty ← isEmptyFolder (dirTable i)
      if ¬isEmpty then pure (2, clusterMap)
      else do
        let dirTable := Function.update dirTable i .zero
        writeCluster request.parentClusterNumber (tableLayout dirTable)
        let clusterMap ← freeChain walkFuel currentCluster clusterMap
        writeFat clusterMap
        pure (0, clusterMap)

section Runs
variable {n : UInt32} {c : Cell} {x : Backing}

theorem table_backing (s : Storage) (n : UInt32) :
    (tableLayout.symm (readClusters n s.backing.1) : DirectoryTable) = s.directoryTable n := rfl

theorem run_readCluster (hn : cellAt n = .ok c) :
    (readCluster n).run DiskCall.exec x = .ok (readClusters n x.1, x) := by
  have hexec : DiskCall.exec (.readCluster n) x = .ok (readClusters n x.1, x) := by
    rw [DiskCall.exec, hn]
    rfl
  exact (Program.run_perform _).trans hexec

theorem run_writeCluster (hn : cellAt n = .ok c) (data : Cluster) (s : Storage) :
    (writeCluster n data).run DiskCall.exec s.backing =
      .ok ((), (s.writeClusters n data).backing) := by
  have hexec : DiskCall.exec (.writeCluster n data) s.backing =
      .ok ((), (s.writeClusters n data).backing) := by
    rw [DiskCall.exec, hn]
    rfl
  exact (Program.run_perform _).trans hexec

theorem run_writeFat (s : Storage) :
    (writeFat s.clusterMap).run DiskCall.exec s.backing = .ok ((), s.writeFat.backing) :=
  run_writeCluster (cellAt_number 1) _ s

theorem run_readBlock {lba : UInt32} (hlba : lba.toNat < 2048) :
    (readBlock lba).run DiskCall.exec x = .ok (x.1 lba.toNat, x) := by
  have hexec : DiskCall.exec (.readBlock lba) x = .ok (x.1 lba.toNat, x) := by
    rw [DiskCall.exec, inClusters, if_pos hlba]
    rfl
  exact (Program.run_perform _).trans hexec

theorem run_writeBlock {lba : UInt32} (hlba : lba.toNat < 2048) (block : Block) (s : Storage) :
    (writeBlock lba block).run DiskCall.exec s.backing = .ok ((), (s.writeBlock lba block).backing) := by
  have hexec : DiskCall.exec (.writeBlock lba block) s.backing =
      .ok ((), (s.writeBlock lba block).backing) := by
    rw [DiskCall.exec, inClusters, if_pos hlba]
    rfl
  exact (Program.run_perform _).trans hexec

theorem run_initDirectoryTable (hn : cellAt n = .ok c) (dirTable : DirectoryTable) (name : Bytes 8) :
    (initDirectoryTable dirTable name n).run DiskCall.exec x =
      .ok (FileSystem.initDirectoryTable dirTable name n x.1, x) := by
  rw [initDirectoryTable, Program.run_bind_ok (run_readCluster hn)]
  rfl

theorem run_isEmptyStorage :
    isEmptyStorage.run DiskCall.exec x = .ok (FileSystem.isEmptyStorage x.1, x) := by
  rw [isEmptyStorage, Program.run_bind_ok (run_readBlock (by decide))]
  rfl

theorem run_createFat32 (s : Storage) : createFat32.run DiskCall.exec s.backing =
    .ok ((FileSystem.createFat32 s).clusterMap, (FileSystem.createFat32 s).backing) := by
  let s₁ : Storage := { s.writeBlock bootSector fsSignature with clusterMap := formattedMap }
  have hroot : cellAt rootClusterNumber = .ok 2 := cellAt_number 2
  rw [createFat32, Program.run_bind_ok (run_writeBlock (by decide) fsSignature s)]
  have hbacking : (s.writeBlock bootSector fsSignature).backing = s₁.backing := rfl
  rw [hbacking, Program.run_bind_ok (run_writeFat s₁), Program.run_bind_ok
    (run_writeBlock (by decide) _ s₁.writeFat), Program.run_bind_ok
    (run_initDirectoryTable hroot _ _), Program.run_bind_ok (run_writeCluster hroot _ _)]
  rfl

theorem run_initializeFilesystemFat32 (s : Storage) :
    initializeFilesystemFat32.run DiskCall.exec s.backing =
      .ok ((FileSystem.initializeFilesystemFat32 s).clusterMap,
        (FileSystem.initializeFilesystemFat32 s).backing) := by
  rw [initializeFilesystemFat32, Program.run_bind_ok run_isEmptyStorage,
    FileSystem.initializeFilesystemFat32]
  by_cases hempty : FileSystem.isEmptyStorage s.disk = true
  · rw [if_pos hempty]
    exact (congrArg (fun p => Program.run DiskCall.exec p s.backing) (if_pos hempty)).trans
      (run_createFat32 s)
  · have hfat : cellAt fatClusterNumber = .ok 1 := cellAt_number 1
    rw [if_neg hempty]
    exact (congrArg (fun p => Program.run DiskCall.exec p s.backing) (if_neg hempty)).trans
      (Program.run_bind_ok (run_readCluster hfat))

theorem run_readChain (s : Storage) (fuel : ℕ) (n buf : UInt32) :
    (readChain s.clusterMap fuel n buf).run DiskCall.exec s.backing =
      (FileSystem.readChain s fuel n buf).map fun stores => (stores, s.backing) := by
  induction fuel generalizing n buf with
  | zero => rfl
  | succ fuel ih =>
    rw [readChain, FileSystem.readChain]
    by_cases hend : n = fatEndOfFile
    · rw [if_pos hend, if_pos hend]
      rfl
    rw [if_neg hend, if_neg hend]
    cases hcell : cellAt n with
    | error f => rfl
    | ok c =>
      dsimp only
      rw [Program.run_bind_ok (run_readCluster hcell), Program.run_bind, ih]
      cases FileSystem.readChain s fuel (s.clusterMap c) (buf + clusterSize) <;> rfl

theorem run_read (request : DriverRequest) (s : Storage) :
    (read request s.clusterMap).run DiskCall.exec s.backing =
      (FileSystem.read request s).map fun answer => (answer, s.backing) := by
  rw [read, FileSystem.read]
  cases hcell : cellAt request.parentClusterNumber with
  | error f => rfl
  | ok parent =>
    dsimp only
    by_cases hdir : s.clusterMap parent ≠ fatEndOfFile
    · rw [if_pos hdir, if_pos hdir]
      rfl
    rw [if_neg hdir, if_neg hdir, Program.run_bind_ok (run_readCluster hcell), table_backing]
    generalize s.directoryTable request.parentClusterNumber = dirTable
    cases (List.finRange 64).find? fun i => request.Matches (dirTable i) with
    | none => rfl
    | some i =>
      dsimp only
      split_ifs
      · rfl
      · rfl
      · rw [Program.run_bind, run_readChain]
        cases FileSystem.readChain s walkFuel (dirTable i).cluster request.buf <;> rfl

theorem run_writeFile (mem : Memory) (l : List Cell) (buf : UInt32) (s : Storage) :
    (writeFile mem l buf s.clusterMap).run DiskCall.exec s.backing =
      .ok ((FileSystem.writeFile mem l buf s).clusterMap, (FileSystem.writeFile mem l buf s).backing) := by
  induction l generalizing buf s with
  | nil => rfl
  | cons slot rest ih =>
    let s₁ := s.setCell slot (head Cell.number fatEndOfFile rest)
    have hfat : (writeFat (Function.update s.clusterMap slot (head Cell.number fatEndOfFile rest))).run
        DiskCall.exec s.backing = .ok ((), s₁.writeFat.backing) := run_writeFat s₁
    rw [writeFile, Program.run_bind_ok hfat,
      Program.run_bind_ok (run_writeCluster (cellAt_number slot) _ s₁.writeFat)]
    exact ih (buf + clusterSize) (s₁.writeFat.writeClusters slot.number (mem.load 2048 buf))

theorem run_writeFolder {request : DriverRequest} {parent : Cell}
    (hparent : cellAt request.parentClusterNumber = .ok parent) (slot : Cell) (s : Storage) :
    (writeFolder request slot s.clusterMap).run DiskCall.exec s.backing =
      .ok ((FileSystem.writeFolder request slot s).clusterMap,
        (FileSystem.writeFolder request slot s).backing) := by
  rw [writeFolder, Program.run_bind_ok (run_initDirectoryTable hparent _ _),
    Program.run_bind_ok (run_writeCluster (cellAt_number slot) _ s)]
  exact Program.run_bind_ok (run_writeFat ((s.writeClusters slot.number _).setCell slot fatEndOfFile))

/-- The result of a call and the cached table after it, and what is on the disk. -/
def outcome (r : Int8 × Storage) : (Int8 × FileAllocationTable) × Backing :=
  ((r.1, r.2.clusterMap), r.2.backing)

theorem run_write (mem : Memory) (request : DriverRequest) (s : Storage) :
    (write mem request s.clusterMap).run DiskCall.exec s.backing =
      (FileSystem.write mem request s).map outcome := by
  rw [write, FileSystem.write]
  cases hcell : cellAt request.parentClusterNumber with
  | error f => rfl
  | ok parent =>
    dsimp only
    by_cases hdir : s.clusterMap parent ≠ fatEndOfFile
    · rw [if_pos hdir, if_pos hdir]
      rfl
    rw [if_neg hdir, if_neg hdir, Program.run_bind_ok (run_readCluster hcell), table_backing]
    generalize s.directoryTable request.parentClusterNumber = dirTable
    cases scanSlots request dirTable (List.finRange 64) 0 with
    | none => rfl
    | some emptySlot =>
      dsimp only
      by_cases hfull : emptySlot = 0
      · rw [if_pos hfull, if_pos hfull]
        rfl
      rw [if_neg hfull, if_neg hfull]
      generalize countEmptyFatSlots s.clusterMap (requiredSlots request.bufferSize).toNat
        (List.finRange 512) = slotBuf
      by_cases hfew : slotBuf.length < (requiredSlots request.bufferSize).toNat
      · rw [if_pos hfew, if_pos hfew]
        rfl
      rw [if_neg hfew, if_neg hfew]
      cases slotBuf with
      | nil => rfl
      | cons slot rest =>
        dsimp only
        by_cases hkind : request.bufferSize = 0
        · rw [if_pos hkind, if_pos hkind, Program.run_bind_ok (run_writeFolder hcell slot s),
            Program.run_bind_ok (run_writeCluster hcell _ _)]
          rfl
        · rw [if_neg hkind, if_neg hkind,
            Program.run_bind_ok (run_writeFile mem (slot :: rest) request.buf s),
            Program.run_bind_ok (run_writeCluster hcell _ _)]
          rfl

theorem run_freeChain (fuel : ℕ) (n : UInt32) (s : Storage) :
    (freeChain fuel n s.clusterMap).run DiskCall.exec s.backing =
      (FileSystem.freeChain fuel n s).map fun s' => (s'.clusterMap, s'.backing) := by
  induction fuel generalizing n s with
  | zero => rfl
  | succ fuel ih =>
    rw [freeChain, FileSystem.freeChain]
    cases hcell : cellAt n with
    | error f => rfl
    | ok c =>
      dsimp only
      have hbacking : s.backing = (s.setCell c fatEmptyEntry).backing := rfl
      rw [hbacking, Program.run_bind_ok (run_writeCluster hcell _ (s.setCell c fatEmptyEntry))]
      split_ifs
      · rfl
      · exact ih (s.clusterMap c) ((s.setCell c fatEmptyEntry).writeClusters n fun _ => 0)

theorem run_isEmptyFolder {entry : DirectoryEntry} (s : Storage)
    (hfolder : entry.IsFolder → ∃ c : Cell, entry.cluster = c.number) :
    ∃ b : Bool, (isEmptyFolder entry).run DiskCall.exec s.backing = .ok (b, s.backing) ∧
      (¬b ↔ entry.IsFolder ∧ ¬FileSystem.isEmptyFolder (s.directoryTable entry.cluster)) := by
  rw [isEmptyFolder]
  by_cases hkind : entry.IsFolder
  · obtain ⟨c, hc⟩ := hfolder hkind
    rw [if_pos hkind, hc, Program.run_bind_ok (run_readCluster (cellAt_number c))]
    exact ⟨_, rfl, (and_iff_right hkind).symm⟩
  · rw [if_neg hkind]
    exact ⟨true, rfl, iff_of_false (not_not.mpr rfl) fun h => hkind h.1⟩

theorem run_delete {request : DriverRequest} {s : Storage}
    (hfolder : ∀ i, ((s.directoryTable request.parentClusterNumber) i).IsFolder →
      request.Matches ((s.directoryTable request.parentClusterNumber) i) → 2 ≤ i →
      ∃ c : Cell, ((s.directoryTable request.parentClusterNumber) i).cluster = c.number) :
    (delete request s.clusterMap).run DiskCall.exec s.backing =
      (FileSystem.delete request s).map outcome := by
  rw [delete, FileSystem.delete]
  cases hcell : cellAt request.parentClusterNumber with
  | error f => rfl
  | ok parent =>
    dsimp only
    by_cases hdir : s.clusterMap parent ≠ fatEndOfFile
    · rw [if_pos hdir, if_pos hdir]
      rfl
    rw [if_neg hdir, if_neg hdir, Program.run_bind_ok (run_readCluster hcell), table_backing]
    generalize s.directoryTable request.parentClusterNumber = dirTable at hfolder
    cases hfind : ((List.finRange 64).drop 2).find? fun i => request.Matches (dirTable i) with
    | none => rfl
    | some i =>
      have hi : i ∈ (List.finRange 64).drop 2 := List.mem_of_find?_eq_some hfind
      have hmatches : request.Matches (dirTable i) := by simpa using List.find?_some hfind
      have hcluster : (dirTable i).IsFolder → ∃ c : Cell, (dirTable i).cluster = c.number :=
        fun hkind => hfolder i hkind hmatches (mem_drop_two.mp hi)
      obtain ⟨b, hempty, hb⟩ := run_isEmptyFolder s hcluster
      dsimp only
      rw [Program.run_bind_ok hempty]
      by_cases hfull : (dirTable i).IsFolder ∧ ¬FileSystem.isEmptyFolder (s.directoryTable
          (dirTable i).cluster)
      · rw [if_pos (hb.mpr hfull), if_pos hfull]
        rfl
      rw [if_neg (hb.not.mpr hfull), if_neg hfull,
        Program.run_bind_ok (run_writeCluster hcell _ s), Program.run_bind]
      have hmap : (s.writeClusters request.parentClusterNumber (tableLayout (Function.update dirTable i
        .zero))).clusterMap = s.clusterMap := rfl
      rw [← hmap, run_freeChain]
      cases FileSystem.freeChain walkFuel (dirTable i).cluster (s.writeClusters
          request.parentClusterNumber (tableLayout (Function.update dirTable i .zero))) with
      | error f => rfl
      | ok s' => exact Program.run_bind_ok (run_writeFat s')

def call : Call → FileAllocationTable → DiskProg (Int8 × FileAllocationTable)
  | .read request, clusterMap => do
    let answer ← read request clusterMap
    pure (answer.1, clusterMap)
  | .write mem request, clusterMap => write mem request clusterMap
  | .delete request, clusterMap => delete request clusterMap

/-- A valid call never leaves the 512 clusters. -/
theorem run_call {s : Storage} (hs : s.Consistent) {call : Call} (hv : call.request.Valid s.volume) :
    (OnDisk.call call s.clusterMap).run DiskCall.exec s.backing = (call.exec s).map outcome := by
  cases call with
  | read request =>
    rw [OnDisk.call, Program.run_bind, run_read, Call.exec]
    cases FileSystem.read request s <;> rfl
  | write mem request => exact run_write mem request s
  | delete request =>
    refine run_delete fun i hfolder _ hi => ?_
    obtain ⟨p, hp, hexisting⟩ := hv.parent
    have hp' : request.parentClusterNumber = p.number := hp
    rw [hp', directoryTable_number] at hfolder ⊢
    have hlive : (s.volume.table p i).Live := by
      by_contra hfree
      rw [hs.wellFormed.free_zero hexisting i hfree] at hfolder
      exact absurd hfolder (by decide)
    obtain ⟨l, hl, hne, -⟩ := hs.wellFormed.chain ⟨hexisting, hi, hlive⟩
    cases l with
    | nil => exact absurd rfl hne
    | cons c rest => exact ⟨c, hl.1⟩

end Runs

/-- Single blocks are written by the formatting only. -/
def KeepsBlocks (c : DiskCall) : Prop := ∀ lba block, c ≠ .writeBlock lba block

section Uses
variable {n : UInt32} {clusterMap : FileAllocationTable}

theorem readCluster_keeps (n : UInt32) : (readCluster n).Uses KeepsBlocks :=
  Program.Uses.perform fun _ _ h => by cases h

theorem writeCluster_keeps (n : UInt32) (data : Cluster) : (writeCluster n data).Uses KeepsBlocks :=
  Program.Uses.perform fun _ _ h => by cases h

theorem initDirectoryTable_keeps (dirTable : DirectoryTable) (name : Bytes 8) (n : UInt32) :
    (initDirectoryTable dirTable name n).Uses KeepsBlocks :=
  (readCluster_keeps n).bind fun _ => by trivial

theorem writeFolder_keeps (request : DriverRequest) (slot : Cell) :
    (writeFolder request slot clusterMap).Uses KeepsBlocks :=
  (initDirectoryTable_keeps _ _ _).bind fun _ => (writeCluster_keeps _ _).bind fun _ =>
    (writeCluster_keeps _ _).bind fun _ => by trivial

theorem writeFile_keeps (mem : Memory) (l : List Cell) (buf : UInt32) :
    (writeFile mem l buf clusterMap).Uses KeepsBlocks := by
  induction l generalizing buf clusterMap with
  | nil => trivial
  | cons slot rest ih =>
    exact (writeCluster_keeps _ _).bind fun _ => (writeCluster_keeps _ _).bind fun _ => ih _

theorem write_keeps (mem : Memory) (request : DriverRequest) :
    (write mem request clusterMap).Uses KeepsBlocks := by
  rw [write]
  split
  · trivial
  split
  · trivial
  refine (readCluster_keeps _).bind fun cluster => ?_
  dsimp only
  split
  · trivial
  split
  · trivial
  split
  · trivial
  split
  · trivial
  split
  · exact (writeFolder_keeps _ _).bind fun _ => (writeCluster_keeps _ _).bind fun _ => by trivial
  · exact (writeFile_keeps _ _ _).bind fun _ => (writeCluster_keeps _ _).bind fun _ => by trivial

theorem freeChain_keeps (fuel : ℕ) (n : UInt32) :
    (freeChain fuel n clusterMap).Uses KeepsBlocks := by
  induction fuel generalizing n clusterMap with
  | zero => trivial
  | succ fuel ih =>
    rw [freeChain]
    split
    · trivial
    refine (writeCluster_keeps _ _).bind fun _ => ?_
    split_ifs
    · trivial
    · exact ih _

theorem isEmptyFolder_keeps (entry : DirectoryEntry) : (isEmptyFolder entry).Uses KeepsBlocks := by
  rw [isEmptyFolder]
  split_ifs
  · exact (readCluster_keeps _).bind fun _ => by trivial
  · trivial

theorem delete_keeps (request : DriverRequest) : (delete request clusterMap).Uses KeepsBlocks := by
  rw [delete]
  split
  · trivial
  split
  · trivial
  refine (readCluster_keeps _).bind fun cluster => ?_
  dsimp only
  split
  · trivial
  refine (isEmptyFolder_keeps _).bind fun isEmpty => ?_
  split
  · trivial
  exact (writeCluster_keeps _ _).bind fun _ => (freeChain_keeps _ _).bind fun _ =>
    (writeCluster_keeps _ _).bind fun _ => by trivial

theorem call_keeps {call : Call} (hchanges : ∀ request, call ≠ .read request) :
    (OnDisk.call call clusterMap).Uses KeepsBlocks := by
  cases call with
  | read request => exact absurd rfl (hchanges request)
  | write mem request => exact write_keeps mem request
  | delete request => exact delete_keeps request

end Uses

end OnDisk

end Os2024.FileSystem
