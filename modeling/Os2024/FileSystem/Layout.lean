import Os2024.Machine

/-! # The on-disk data of the FAT32 driver

Constants, the directory entry, the two tables that fill one cluster each, and
the driver request of fat32.h. Both tables are packed little-endian layouts, so
a cluster is read as a table and written back without loss.
-/

namespace Os2024.FileSystem
open Library.PackedLayout

abbrev Block := Bytes 512

/-- Four blocks of 512 bytes. -/
abbrev Cluster := Bytes 2048

/-- The indices of `cluster_map`, one for each of the CLUSTER_MAP_SIZE cells. -/
abbrev Cell := Fin 512

-- The literals of the index types rest on these three.
instance neZeroCells : NeZero 512 := ⟨by decide⟩
instance neZeroSlots : NeZero 64 := ⟨by decide⟩
instance neZeroRecords : NeZero 8 := ⟨by decide⟩

def bootSector : UInt32 := 0
def clusterBlockCount : UInt32 := 4
def clusterSize : UInt32 := 2048
def cluster0Value : UInt32 := 0x0FFFFFF0
def cluster1Value : UInt32 := 0x0FFFFFFF
def fatEndOfFile : UInt32 := 0x0FFFFFFF
def fatEmptyEntry : UInt32 := 0
def fatClusterNumber : UInt32 := 1
def rootClusterNumber : UInt32 := 2
def attrSubdirectory : UInt8 := 0b00010000
def uattrNotEmpty : UInt8 := 0b10101010

/-- The cluster number that indexes a cell. -/
def Cell.number (c : Cell) : UInt32 := UInt32.ofNat c.val

@[simp] theorem Cell.number_toNat (c : Cell) : c.number.toNat = c.val := by
  have hc := c.isLt
  rw [number, UInt32.toNat_ofNat']
  omega

theorem Cell.number_injective : Function.Injective Cell.number := by
  intro c d h
  apply Fin.ext
  rw [← c.number_toNat, ← d.number_toNat, h]

@[simp] theorem Cell.number_inj {c d : Cell} : c.number = d.number ↔ c = d :=
  number_injective.eq_iff

/-- No cell is called like the end of a chain. -/
theorem Cell.number_ne_endOfFile (c : Cell) : c.number ≠ fatEndOfFile := by
  intro h
  have hc := c.isLt
  have hv : c.val = 0x0FFFFFFF := by rw [← c.number_toNat, h]; rfl
  omega

theorem Cell.lt_three_iff (c : Cell) : c < 3 ↔ c = 0 ∨ c = 1 ∨ c = 2 := by
  rw [Fin.lt_def]
  simp only [Fin.ext_iff]
  change c.val < 3 ↔ c.val = 0 ∨ c.val = 1 ∨ c.val = 2
  omega

abbrev FileAllocationTable := Cell → UInt32

/-- The 32-byte entry. `attr` is the field `attribute`, a keyword here; `undelete` keeps the raw
byte behind the C `bool`. -/
structure DirectoryEntry where
  name : Bytes 8
  ext : Bytes 3
  attr : UInt8
  userAttribute : UInt8
  undelete : UInt8
  createTime : UInt16
  createDate : UInt16
  accessDate : UInt16
  clusterHigh : UInt16
  modifiedTime : UInt16
  modifiedDate : UInt16
  clusterLow : UInt16
  filesize : UInt32
  deriving DecidableEq

abbrev DirectoryTable := Fin 64 → DirectoryEntry

namespace DirectoryEntry

def zero : DirectoryEntry :=
  ⟨fun _ => 0, fun _ => 0, 0, 0, 0, 0, 0, 0, 0, 0, 0, 0, 0⟩

/-- `user_attribute == UATTR_NOT_EMPTY`. -/
def Live (e : DirectoryEntry) : Prop := e.userAttribute = uattrNotEmpty

instance : DecidablePred Live := fun e => inferInstanceAs (Decidable (e.userAttribute = _))

def IsFolder (e : DirectoryEntry) : Prop := e.attr = attrSubdirectory

instance : DecidablePred IsFolder := fun e => inferInstanceAs (Decidable (e.attr = _))

/-- `(cluster_high << 16) | cluster_low`. -/
def cluster (e : DirectoryEntry) : UInt32 := e.clusterHigh.toUInt32 <<< 16 ||| e.clusterLow.toUInt32

def fields : DirectoryEntry ≃ Bytes 8 × Bytes 3 × UInt8 × UInt8 × UInt8 × UInt16 × UInt16 ×
    UInt16 × UInt16 × UInt16 × UInt16 × UInt16 × UInt32 where
  toFun e := (e.name, e.ext, e.attr, e.userAttribute, e.undelete, e.createTime, e.createDate,
    e.accessDate, e.clusterHigh, e.modifiedTime, e.modifiedDate, e.clusterLow, e.filesize)
  invFun := fun (n, x, a, u, d, ct, cd, ad, ch, mt, md, cl, f) =>
    ⟨n, x, a, u, d, ct, cd, ad, ch, mt, md, cl, f⟩
  left_inv _ := rfl
  right_inv _ := rfl

def layout : Layout DirectoryEntry 32 :=
  fields.trans <| pair (bytes 8) <| pair (bytes 3) <| pair byte <| pair byte <| pair byte <|
    pair halfword <| pair halfword <| pair halfword <| pair halfword <| pair halfword <|
    pair halfword <| pair halfword word

end DirectoryEntry

/-- `struct FAT32FileAllocationTable` as the bytes of one cluster. -/
@[irreducible] def fatLayout : Layout FileAllocationTable 2048 := array 512 word

/-- `struct FAT32DirectoryTable` as the bytes of one cluster. -/
@[irreducible] def tableLayout : Layout DirectoryTable 2048 := array 64 DirectoryEntry.layout

structure DriverRequest where
  buf : UInt32
  name : Bytes 8
  ext : Bytes 3
  parentClusterNumber : UInt32
  bufferSize : UInt32

/-- The two `memcmp` tests on name and extension, written `!memcmp(..) && !memcmp(..)`. -/
def DriverRequest.Matches (request : DriverRequest) (e : DirectoryEntry) : Prop :=
  e.name = request.name ∧ e.ext = request.ext

instance (request : DriverRequest) : DecidablePred request.Matches :=
  fun e => inferInstanceAs (Decidable (e.name = _ ∧ e.ext = _))

end Os2024.FileSystem
