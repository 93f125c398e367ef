import Os2024.Library.BlockStore
import Os2024.Library.LinkedCells
import Os2024.FileSystem.Layout

/-! # The FAT32 driver of fat32.c

The disk is an ideal block store and the driver caches the file allocation table.
Every call of `write_clusters` is also appended to a journal, a history variable
that no code reads: it lists the atomic disk writes of an operation in order.
-/

namespace Os2024.FileSystem
open Library.PackedLayout Library.BlockStore Library.LinkedCells

abbrev Disk := Store Block

structure ClusterWrite where
  clusterNumber : UInt32
  data : Cluster

/-- The cached `fat_table`, the disk behind `read_blocks` and `write_blocks`, and the journal. -/
structure Storage where
  clusterMap : FileAllocationTable
  disk : Disk
  journal : List ClusterWrite

def clusterToLba (cluster : UInt32) : UInt32 := clusterBlockCount * cluster

def clusterBlocks : (Fin 4 → Block) ≃ Cluster := array 4 (bytes 512)

/-- `write_clusters` on the disk; every caller passes `cluster_count` 1. -/
def writeClusters (data : Cluster) (clusterNumber : UInt32) (disk : Disk) : Disk :=
  writeRange disk (clusterToLba clusterNumber).toNat (clusterBlocks.symm data)

def readClusters (clusterNumber : UInt32) (disk : Disk) : Cluster :=
  clusterBlocks (readRange disk (clusterToLba clusterNumber).toNat 4)

namespace Storage

def writeClusters (s : Storage) (clusterNumber : UInt32) (data : Cluster) : Storage :=
  { s with
    disk := FileSystem.writeClusters data clusterNumber s.disk
    journal := s.journal ++ [⟨clusterNumber, data⟩] }

/-- `write_blocks` of a single block. -/
def writeBlock (s : Storage) (lba : UInt32) (block : Block) : Storage :=
  { s with disk := writeRange s.disk lba.toNat (fun _ : Fin 1 => block) }

def directoryTable (s : Storage) (clusterNumber : UInt32) : DirectoryTable :=
  tableLayout.symm (readClusters clusterNumber s.disk)

/-- `cluster_map[cluster] = value`, without writing it back. -/
def setCell (s : Storage) (c : Cell) (value : UInt32) : Storage :=
  { s with clusterMap := Function.update s.clusterMap c value }

/-- `write_clusters(&fat_table, FAT_CLUSTER_NUMBER, 1)`. -/
def writeFat (s : Storage) : Storage := s.writeClusters fatClusterNumber (fatLayout s.clusterMap)

end Storage

/-- The bounds of `cluster_map`. -/
def cellAt (cluster : UInt32) : Except Fault Cell :=
  if h : cluster.toNat < 512 then .ok ⟨cluster.toNat, h⟩ else .error .outOfBounds

/-- Copying stops at the first NUL or after eight characters; the rest stays zero. -/
def copyName (name : Bytes 8) : Bytes 8 :=
  fun i => ((List.ofFn name).takeWhile (· ≠ 0)).getD i 0

def initDirectoryTable (dirTable : DirectoryTable) (name : Bytes 8) (parentDirCluster : UInt32)
    (disk : Disk) : DirectoryTable :=
  let t : DirectoryTable := tableLayout.symm (readClusters parentDirCluster disk)
  let currentDir := { dirTable 0 with
    name := copyName name
    attr := attrSubdirectory
    userAttribute := uattrNotEmpty }
  let parentDir := { dirTable 1 with
    name := (t 0).name
    attr := attrSubdirectory
    userAttribute := uattrNotEmpty
    clusterLow := parentDirCluster.toUInt16
    clusterHigh := (parentDirCluster >>> 16).toUInt16 }
  Function.update (Function.update dirTable 0 currentDir) 1 parentDir

def fsSignatureText : String :=
  "Course          Designed by     Lab Sister ITB  Made with <3    -----------2024\n"

def fsSignature : Block := fun i =>
  if i = 510 then 'O'.toUInt8 else if i = 511 then 'k'.toUInt8
  else (fsSignatureText.toList.map Char.toUInt8).getD i 0

/-- A disk without the signature counts as empty. -/
def isEmptyStorage (disk : Disk) : Bool := disk bootSector.toNat ≠ fsSignature

/-- `"root"`, padded with NULs. -/
def rootName : Bytes 8 := ![114, 111, 111, 116, 0, 0, 0, 0]

def formattedMap : FileAllocationTable :=
  Function.update (Function.update (Function.update (fun _ => fatEmptyEntry)
    0 cluster0Value) 1 cluster1Value) 2 fatEndOfFile

def createFat32 (s : Storage) : Storage :=
  let s := s.writeBlock bootSector fsSignature
  let s := { s with clusterMap := formattedMap }.writeFat
  -- The name goes to the first block of the root cluster, where the table's own name is read.
  let s := s.writeBlock (clusterToLba 2) (fun i => (List.ofFn rootName).getD i 0)
  let dirTable := initDirectoryTable (fun _ => .zero) rootName rootClusterNumber s.disk
  s.writeClusters rootClusterNumber (tableLayout dirTable)

def initializeFilesystemFat32 (s : Storage) : Storage :=
  if isEmptyStorage s.disk then createFat32 s
  else { s with clusterMap := fatLayout.symm (readClusters fatClusterNumber s.disk) }

/-- The return code of `read_directory` and the cluster stored at `request.buf`. -/
def readDirectory (request : DriverRequest) (s : Storage) : Int8 × Option Cluster :=
  let dirTable := s.directoryTable request.parentClusterNumber
  match (List.finRange 64).find? (fun i => (dirTable i).Live ∧ request.Matches (dirTable i)) with
  | none => (2, none)
  | some i =>
    if (dirTable i).IsFolder then
      -- `sizeof(struct FAT32DirectoryEntry)`
      if request.bufferSize < 32 then (-1, none)
      else (0, some (readClusters (dirTable i).cluster s.disk))
    else (1, none)

/-- The scan for free cells, at most `required` of them, in increasing order. -/
def countEmptyFatSlots (clusterMap : FileAllocationTable) : ℕ → List Cell → List Cell
  | _, [] => []
  | 0, _ => []
  | required + 1, i :: rest =>
    if clusterMap i = fatEmptyEntry then i :: countEmptyFatSlots clusterMap required rest
    else countEmptyFatSlots clusterMap (required + 1) rest

/-- `ceil` of fat32.c, whose result is an 8-bit number. -/
def ceil (n : ℚ) : UInt8 := if (⌊n⌋ : ℚ) = n then UInt8.ofInt ⌊n⌋ else UInt8.ofInt (⌊n⌋ + 1)

/-- `ceil(size / (float) CLUSTER_SIZE)`. -/
def clusterCount (size : UInt32) : UInt8 := ceil (floatDiv size clusterSize)

/-- The `while` loop of `read`: the stores into the buffer, each with its address. -/
def readChain (s : Storage) : ℕ → UInt32 → UInt32 → Except Fault (List (UInt32 × Cluster))
  | 0, _, _ => .error .diverges
  | fuel + 1, currentCluster, buf =>
    if currentCluster = fatEndOfFile then .ok [] else
    match cellAt currentCluster with
    | .error f => .error f
    | .ok c =>
      match readChain s fuel (s.clusterMap c) (buf + clusterSize) with
      | .error f => .error f
      | .ok stores => .ok ((buf, readClusters currentCluster s.disk) :: stores)

/-- A walk over the 512 cells that has not stopped after this many steps never stops. -/
def walkFuel : ℕ := 514

/-- The return code of `read` and its stores into memory. -/
def read (request : DriverRequest) (s : Storage) :
    Except Fault (Int8 × List (UInt32 × Cluster)) :=
  match cellAt request.parentClusterNumber with
  | .error f => .error f
  | .ok parent =>
    if s.clusterMap parent ≠ fatEndOfFile then .ok (2, []) else
    let dirTable := s.directoryTable request.parentClusterNumber
    match (List.finRange 64).find? (fun i => request.Matches (dirTable i)) with
    | none => .ok (2, [])
    | some i =>
      if (dirTable i).attr = 0x10 then .ok (1, []) else
      if (request.bufferSize / clusterSize).toNat < (clusterCount (dirTable i).filesize).toNat then
        .ok (-1, [])
      else
        match readChain s walkFuel (dirTable i).cluster request.buf with
        | .error f => .error f
        | .ok stores => .ok (0, stores)

/-- The memory after the stores of a `read`. -/
def applyStores (mem : Memory) (stores : List (UInt32 × Cluster)) : Memory :=
  stores.foldl (fun mem st => mem.store st.1 st.2) mem

/-- The slot scan of `write`: `none` when a slot already carries the name, and otherwise
`dirtable_empty_slot`, where 0 stands for no empty slot. -/
def scanSlots (request : DriverRequest) (dirTable : DirectoryTable) :
    List (Fin 64) → Fin 64 → Option (Fin 64)
  | [], emptySlot => some emptySlot
  | i :: rest, emptySlot =>
    let emptySlot := if ¬(dirTable i).Live ∧ emptySlot = 0 then i else emptySlot
    if request.Matches (dirTable i) then none else scanSlots request dirTable rest emptySlot

/-- `required`, an 8-bit number: one cluster for a folder. -/
def requiredSlots (bufferSize : UInt32) : UInt8 :=
  if bufferSize = 0 then clusterCount bufferSize + 1 else clusterCount bufferSize

/-- The branch of `write` for a folder: its table first, then its cell. -/
def writeFolder (request : DriverRequest) (slot : Cell) (s : Storage) : Storage :=
  let childDir := initDirectoryTable (fun _ => .zero) request.name request.parentClusterNumber s.disk
  let child := { childDir 0 with
    clusterLow := slot.number.toUInt16
    clusterHigh := (slot.number >>> 16).toUInt16 }
  let s := s.writeClusters slot.number (tableLayout (Function.update childDir 0 child))
  (s.setCell slot fatEndOfFile).writeFat

/-- The branch of `write` for a file: each cell is linked and flushed before its data. -/
def writeFile (mem : Memory) : List Cell → UInt32 → Storage → Storage
  | [], _, s => s
  | clusterNum :: rest, buf, s =>
    let nextCluster := head Cell.number fatEndOfFile rest
    let s := (s.setCell clusterNum nextCluster).writeFat
    let s := s.writeClusters clusterNum.number (mem.load 2048 buf)
    writeFile mem rest (buf + clusterSize) s

def newEntry (request : DriverRequest) (slot : Cell) : DirectoryEntry :=
  { DirectoryEntry.zero with
    attr := if request.bufferSize = 0 then attrSubdirectory else 0
    userAttribute := uattrNotEmpty
    clusterLow := slot.number.toUInt16
    clusterHigh := (slot.number >>> 16).toUInt16
    filesize := request.bufferSize
    name := request.name
    ext := request.ext }

def write (mem : Memory) (request : DriverRequest) (s : Storage) : Except Fault (Int8 × Storage) :=
  match cellAt request.parentClusterNumber with
  | .error f => .error f
  | .ok parent =>
    if s.clusterMap parent ≠ fatEndOfFile then .ok (2, s) else
    let dirTable := s.directoryTable request.parentClusterNumber
    match scanSlots request dirTable (List.finRange 64) 0 with
    | none => .ok (1, s)
    | some emptySlot =>
      if emptySlot = 0 then .ok (-1, s) else
      let required := (requiredSlots request.bufferSize).toNat
      let slotBuf := countEmptyFatSlots s.clusterMap required (List.finRange 512)
      if slotBuf.length < required then .ok (-1, s) else
      match slotBuf with
      | [] => .error .outOfBounds  -- `slot_buf[0]` of an array without elements
      | slot :: rest =>
        let s := if request.bufferSize = 0 then writeFolder request slot s
          else writeFile mem (slot :: rest) request.buf s
        let dirTable := Function.update dirTable emptySlot (newEntry request slot)
        .ok (0, s.writeClusters request.parentClusterNumber (tableLayout dirTable))

/-- The `do`-`while` loop of `delete`, which zeroes each cluster it frees. -/
def freeChain : ℕ → UInt32 → Storage → Except Fault Storage
  | 0, _, _ => .error .diverges
  | fuel + 1, currentCluster, s =>
    match cellAt currentCluster with
    | .error f => .error f
    | .ok c =>
      let nextCluster := s.clusterMap c
      let s := (s.setCell c fatEmptyEntry).writeClusters currentCluster (fun _ => 0)
      if nextCluster = fatEndOfFile then .ok s else freeChain fuel nextCluster s

def isEmptyFolder (entryTable : DirectoryTable) : Bool :=
  ((List.finRange 64).drop 2).all (fun j => ¬(entryTable j).Live)

def delete (request : DriverRequest) (s : Storage) : Except Fault (Int8 × Storage) :=
  match cellAt request.parentClusterNumber with
  | .error f => .error f
  | .ok parent =>
    if s.clusterMap parent ≠ fatEndOfFile then .ok (2, s) else
    let dirTable := s.directoryTable request.parentClusterNumber
    match ((List.finRange 64).drop 2).find? (fun i => request.Matches (dirTable i)) with
    | none => .ok (1, s)
    | some i =>
      let currentCluster := (dirTable i).cluster
      if (dirTable i).IsFolder ∧ ¬isEmptyFolder (s.directoryTable currentCluster) then .ok (2, s)
      else
        let dirTable := Function.update dirTable i .zero
        let s := s.writeClusters request.parentClusterNumber (tableLayout dirTable)
        match freeChain walkFuel currentCluster s with
        | .error f => .error f
        | .ok s => .ok (0, s.writeFat)

end Os2024.FileSystem
