import Os2024.FileSystem.Links
import Os2024.FileSystem.Outcomes
import Os2024.Library.MeteredMaps

/-! # The file system as a tree of paths

What a user sees of a disk: below every path from the root a folder or a file, the
bytes that `read` gives for a file, and how many cells are free. Slots and cluster
numbers do not show. In the states of valid runs every live entry is seen under
exactly one path.
-/

namespace Os2024.FileSystem
open Library.PackedLayout Library.LinkedCells Library.Runs Library.MeteredMaps

/-- A name with its extension. -/
abbrev Key := Bytes 8 × Bytes 3

def DirectoryEntry.key (e : DirectoryEntry) : Key := (e.name, e.ext)

def DriverRequest.key (request : DriverRequest) : Key := (request.name, request.ext)

theorem DriverRequest.matches_iff {request : DriverRequest} {e : DirectoryEntry} :
    request.Matches e ↔ e.key = request.key := by
  simp [Matches, DirectoryEntry.key, key]

/-- What is seen under a path. -/
inductive Node where
  | folder (filesize : UInt32)
  | file (filesize : UInt32) (bytes : Fin filesize.toNat → UInt8)

def Node.clusters : Node → ℤ
  | folder _ => 1
  | file filesize _ => clustersFor filesize

inductive DirectoryPath (v : Volume) : List Key → Cell → Prop
  | root : DirectoryPath v [] 2
  | step {path : List Key} {d c : Cell} {i : Fin 64} (h : DirectoryPath v path d)
      (hl : v.Lists d i c) : DirectoryPath v (path ++ [(v.table d i).key]) c

/-- Every read of this name from directory `d` into a large enough buffer gives these bytes. -/
def ReadsAs (s : Storage) (d : Cell) (key : Key) (size : UInt32) (bytes : Fin size.toNat → UInt8) :
    Prop :=
  ∀ buf bufferSize, 2048 * clustersFor size ≤ bufferSize.toNat →
    ∃ stores, read ⟨buf, key.1, key.2, d.number, bufferSize⟩ s = .ok (0, stores) ∧
      ∀ mem j, applyStores mem stores (buf + UInt32.ofNat j.val) = bytes j

/-- The entry in slot `i` of `d` is seen as this node. -/
inductive SeenAs (s : Storage) (d : Cell) (i : Fin 64) : Node → Prop
  | folder (hf : (s.volume.table d i).IsFolder) : SeenAs s d i (.folder (s.volume.table d i).filesize)
  | file (hfile : ¬(s.volume.table d i).IsFolder)
      (bytes : Fin (s.volume.table d i).filesize.toNat → UInt8)
      (hread : ReadsAs s d (s.volume.table d i).key (s.volume.table d i).filesize bytes) :
      SeenAs s d i (.file (s.volume.table d i).filesize bytes)

/-- The node is seen at the end of the path. -/
inductive Shows (s : Storage) : List Key → Node → Prop
  | entry {path : List Key} {d : Cell} {i : Fin 64} {node : Node}
      (hd : DirectoryPath s.volume path d) (he : s.volume.LiveEntry d i) (hn : SeenAs s d i node) :
      Shows s (path ++ [(s.volume.table d i).key]) node

namespace DirectoryPath
variable {v : Volume} {path path' : List Key} {c d : Cell}

theorem existing (h : DirectoryPath v path d) : v.Existing d := by
  cases h with
  | root => exact .refl
  | step _ hl => exact hl.existing_child

/-- A directory has one path. -/
theorem unique (h : DirectoryPath v path d) (hv : v.WellFormed) (h' : DirectoryPath v path' d) :
    path = path' := by
  induction h generalizing path' with
  | root =>
    cases h' with
    | root => rfl
    | step _ hl => exact absurd rfl (hl.child_ne_root hv)
  | step h hl ih =>
    cases h' with
    | root => exact absurd rfl (hl.child_ne_root hv)
    | step h' hl' =>
      obtain ⟨rfl, rfl⟩ := hl.unique hv hl'
      rw [ih h']

theorem slot_unique (hv : v.WellFormed) {i j : Fin 64} (he : v.LiveEntry d i)
    (he' : v.LiveEntry d j) (h : (v.table d i).key = (v.table d j).key) : i = j :=
  hv.names he.existing i j he.slot he.live he'.live (congrArg Prod.fst h) (congrArg Prod.snd h)

theorem cell_unique (h : DirectoryPath v path c) (hv : v.WellFormed)
    (h' : DirectoryPath v path d) : c = d := by
  induction h generalizing d with
  | root =>
    generalize hpath : ([] : List Key) = path at h'
    cases h' with
    | root => rfl
    | step => simp at hpath
  | @step path _ c i h hl ih =>
    generalize hpath : path ++ [(v.table _ i).key] = path' at h'
    cases h' with
    | root => simp at hpath
    | step h' hl' =>
      obtain ⟨rfl, hkey⟩ := List.append_inj' hpath rfl
      obtain rfl := ih h'
      obtain rfl := slot_unique hv hl.toLiveEntry hl'.toLiveEntry (List.singleton_inj.mp hkey)
      exact Cell.number_injective (hl.cluster.symm.trans hl'.cluster)

end DirectoryPath

theorem exists_directoryPath {v : Volume} {d : Cell} (h : v.Existing d) :
    ∃ path, DirectoryPath v path d := by
  induction h with
  | refl => exact ⟨[], .root⟩
  | tail hb hbc ih =>
    obtain ⟨path, hpath⟩ := ih
    obtain ⟨i, hi, hlive, hfolder, hc⟩ := hbc
    exact ⟨_, hpath.step ⟨⟨hb, hi, hlive⟩, hfolder, hc⟩⟩

/-- In the states of valid runs no live entry has the all-zero name. -/
structure Visible (s : Storage) : Prop extends Sound s where
  named : ∀ {d i}, s.volume.LiveEntry d i → (s.volume.table d i).key ≠ DirectoryEntry.zero.key

theorem createFat32_visible (s : Storage) : Visible (createFat32 s) where
  toSound := createFat32_sound s
  named he := absurd he (Volume.not_liveEntry_of_fresh (createFat32_root s) _ _)

theorem Visible.step {s s' : Storage} {call : Call} (hs : Visible s) (h : ValidStep s call s') :
    Visible s' := by
  refine ⟨hs.toSound.step h, fun {d i} he => ?_⟩
  obtain ⟨p, -, hp, heff⟩ := h.effect hs.toConsistent
  rcases (heff.change hs.toConsistent).liveEntry_cases hs.toConsistent hp he with
    ⟨hold, heq⟩ | ⟨mem, request, c, rest, rfl, rfl, w, hv⟩
  · rw [heq]
    exact hs.named hold
  · have hm := (w.entryWritten hs.toConsistent hp mem).named
    rw [hv, DriverRequest.matches_iff.mp hm]
    exact fun hzero => h.2.1.named (DriverRequest.matches_iff.mpr hzero.symm)

theorem visible_of_run {s₀ s : Storage} (h : Run ValidStep (createFat32 s₀) s) : Visible s :=
  h.invariant (createFat32_visible s₀) fun _ _ _ hs hstep => hs.step hstep

namespace Visible
variable {s : Storage} {d : Cell} {i : Fin 64} {l : List Cell}

theorem chain_length (hs : Visible s) (he : s.volume.LiveEntry d i)
    (hl : s.volume.EntryChain (s.volume.table d i) l) :
    l.length = if (s.volume.table d i).IsFolder then 1
      else clustersFor (s.volume.table d i).filesize := by
  obtain ⟨m, hm, -, -, hlen⟩ := hs.wellFormed.chain he
  rw [hl.unique hm, hlen, chainLength_of_sized (hs.sized he)]
  rfl

theorem readsAs_iff (hs : Visible s) (he : s.volume.LiveEntry d i) {e : DirectoryEntry}
    (hentry : s.volume.table d i = e) (hfile : ¬e.IsFolder) (hl : s.volume.EntryChain e l)
    (bytes : Fin e.filesize.toNat → UInt8) :
    ReadsAs s d e.key e.filesize bytes ↔ ∀ j, bytes j = s.volume.contents l j := by
  subst e
  have hsize := hs.sized he
  have hlen := hs.chain_length he hl
  rw [if_neg hfile] at hlen
  have hread : ∀ (buf bufferSize : UInt32),
      2048 * clustersFor (s.volume.table d i).filesize ≤ bufferSize.toNat →
      read ⟨buf, (s.volume.table d i).key.1, (s.volume.table d i).key.2, d.number, bufferSize⟩ s =
        .ok (0, chainStores s.volume buf l) := by
    intro buf bufferSize hbuf
    refine read_file hs.toConsistent rfl (fun hzero => hs.named he ?_) he ⟨rfl, rfl⟩ hfile hl ?_
    · exact (DriverRequest.matches_iff.mp hzero).symm
    · have hunit : clusterSize.toNat = 2048 := rfl
      rw [clusterCount_of_valid hsize, ← clustersFor, UInt32.toNat_div, hunit]
      dsimp only
      omega
  have hbytes : ∀ mem (buf : UInt32) (j : Fin (s.volume.table d i).filesize.toNat),
      applyStores mem (chainStores s.volume buf l) (buf + UInt32.ofNat j.val) =
        s.volume.contents l j := by
    intro mem buf j
    have hj := j.isLt
    rw [clustersFor] at hlen
    rw [maxFileSize] at hsize
    exact applyStores_chainStores s.volume mem buf (by omega) (by omega)
  constructor
  · intro h j
    have hlarge : 2048 * clustersFor (s.volume.table d i).filesize ≤ (0xFFFFFFFF : UInt32).toNat := by
      have hmax : (0xFFFFFFFF : UInt32).toNat = 0xFFFFFFFF := rfl
      rw [maxFileSize] at hsize
      rw [hmax, clustersFor]
      omega
    obtain ⟨stores, hok, hstores⟩ := h 0 0xFFFFFFFF hlarge
    rw [hread 0 0xFFFFFFFF hlarge] at hok
    obtain ⟨-, rfl⟩ := Prod.mk.inj (Except.ok.inj hok)
    rw [← hstores (fun _ => 0) j, hbytes]
  · intro h buf bufferSize hbuf
    refine ⟨_, hread buf bufferSize hbuf, fun mem j => ?_⟩
    rw [hbytes, h j]

theorem seenAs_file (hs : Visible s) (he : s.volume.LiveEntry d i) {e : DirectoryEntry}
    (hentry : s.volume.table d i = e) (hfile : ¬e.IsFolder) (hl : s.volume.EntryChain e l)
    {bytes : Fin e.filesize.toNat → UInt8} (h : ∀ j, bytes j = s.volume.contents l j) :
    SeenAs s d i (.file e.filesize bytes) := by
  have hread := (hs.readsAs_iff he hentry hfile hl bytes).mpr h
  subst e
  exact .file hfile bytes hread

theorem exists_seenAs (hs : Visible s) (he : s.volume.LiveEntry d i) :
    ∃ node, SeenAs s d i node := by
  by_cases hf : (s.volume.table d i).IsFolder
  · exact ⟨_, .folder hf⟩
  · obtain ⟨l, hl, -⟩ := hs.wellFormed.chain he
    exact ⟨_, hs.seenAs_file he rfl hf hl fun _ => rfl⟩

theorem seenAs_unique (hs : Visible s) (he : s.volume.LiveEntry d i) {node node' : Node}
    (h : SeenAs s d i node) (h' : SeenAs s d i node') : node = node' := by
  cases h with
  | folder hf =>
    cases h' with
    | folder => rfl
    | file hfile => exact absurd hf hfile
  | file hfile bytes hread =>
    cases h' with
    | folder hf => exact absurd hf hfile
    | file _ bytes' hread' =>
      obtain ⟨l, hl, -⟩ := hs.wellFormed.chain he
      have hbytes := (hs.readsAs_iff he rfl hfile hl bytes).mp hread
      have hbytes' := (hs.readsAs_iff he rfl hfile hl bytes').mp hread'
      obtain rfl : bytes = bytes' := funext fun j => (hbytes j).trans (hbytes' j).symm
      rfl

theorem clusters_of_seenAs (hs : Visible s) (he : s.volume.LiveEntry d i)
    (hl : s.volume.EntryChain (s.volume.table d i) l) {node : Node} (h : SeenAs s d i node) :
    node.clusters = l.length := by
  have hlen := hs.chain_length he hl
  cases h with
  | folder hf =>
    rw [if_pos hf] at hlen
    simp [Node.clusters, hlen]
  | file hfile =>
    rw [if_neg hfile] at hlen
    simp [Node.clusters, hlen]

theorem shows_unique (hs : Visible s) {path : List Key} {node node' : Node}
    (h : Shows s path node) (h' : Shows s path node') : node = node' := by
  cases h with
  | @entry path d i _ hd he hn =>
    generalize hpath : path ++ [(s.volume.table d i).key] = path' at h'
    cases h' with
    | entry hd' he' hn' =>
      obtain ⟨rfl, hkey⟩ := List.append_inj' hpath rfl
      obtain rfl := hd.cell_unique hs.wellFormed hd'
      obtain rfl := DirectoryPath.slot_unique hs.wellFormed he he' (List.singleton_inj.mp hkey)
      exact hs.seenAs_unique he hn hn'

end Visible

/-- The tree of a storage with the number of its free cells. -/
noncomputable def Storage.tree (s : Storage) : MeteredMap (List Key) Node where
  entries := ofRelation (Shows s)
  free := (freeCells s.clusterMap).length

theorem Visible.tree_eq_some {s : Storage} (hs : Visible s) {path : List Key} {node : Node} :
    s.tree.entries path = some node ↔ Shows s path node :=
  ofRelation_eq_some (Shows s) fun h h' => hs.shows_unique h h'

/-- The two storages look the same: each live entry is seen, under the same paths the same nodes,
and as many cells are free. -/
structure Alike (s s' : Storage) : Prop where
  seen : ∀ {path d i}, DirectoryPath s.volume path d → s.volume.LiveEntry d i →
    ∃ node, Shows s (path ++ [(s.volume.table d i).key]) node
  seen' : ∀ {path d i}, DirectoryPath s'.volume path d → s'.volume.LiveEntry d i →
    ∃ node, Shows s' (path ++ [(s'.volume.table d i).key]) node
  nodes : ∀ path node, Shows s path node ↔ Shows s' path node
  free : (freeCells s.clusterMap).length = (freeCells s'.clusterMap).length

theorem Visible.alike {s s' : Storage} (hs : Visible s) (hs' : Visible s') (h : s.tree = s'.tree) :
    Alike s s' where
  seen hd he := (hs.exists_seenAs he).imp fun _ hn => .entry hd he hn
  seen' hd he := (hs'.exists_seenAs he).imp fun _ hn => .entry hd he hn
  nodes path node := by rw [← hs.tree_eq_some, h, hs'.tree_eq_some]
  free := by
    have hfree := congrArg MeteredMap.free h
    exact Nat.cast_inj.mp hfree

end Os2024.FileSystem
