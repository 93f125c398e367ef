import Os2024.FileSystem.Journal
import Os2024.FileSystem.Search
import Os2024.FileSystem.WriteEffect

/-! # What `read` returns

A live entry with a name is the only slot of its directory that carries the name,
so the search of `read` stops there. The walk over the chain then stores the
clusters of the file one behind the other, and the buffer holds its contents.
-/

namespace Os2024.FileSystem
open Library.PackedLayout Library.LinkedCells

/-- The name or the extension has a byte that is not zero. -/
def DriverRequest.Named (request : DriverRequest) : Prop := ¬request.Matches .zero

instance : DecidablePred DriverRequest.Named :=
  fun request => inferInstanceAs (Decidable ¬request.Matches .zero)

/-- No second slot of a directory carries the name of a live entry. -/
theorem Volume.WellFormed.match_unique {v : Volume} (hv : v.WellFormed) {request : DriverRequest}
    (hn : request.Named) {d : Cell} {i j : Fin 64} (he : v.LiveEntry d i)
    (hi : request.Matches (v.table d i)) (hj : request.Matches (v.table d j)) : j = i := by
  by_cases hlive : (v.table d j).Live
  · exact (hv.names he.existing i j he.slot he.live hlive (hi.1.trans hj.1.symm)
      (hi.2.trans hj.2.symm)).symm
  · rw [hv.free_zero he.existing j hlive] at hj
    exact absurd hj hn

theorem find_eq_some {l : List (Fin 64)} {request : DriverRequest} {t : DirectoryTable} {i : Fin 64}
    (hi : i ∈ l) (hm : request.Matches (t i)) (huniq : ∀ j, request.Matches (t j) → j = i) :
    l.find? (fun j => request.Matches (t j)) = some i := by
  cases hfind : l.find? (fun j => request.Matches (t j)) with
  | none => exact absurd (decide_eq_true hm) (List.find?_eq_none.mp hfind i hi)
  | some j =>
    have hsome := List.find?_some hfind
    rw [huniq j (of_decide_eq_true hsome)]

def chainStores (v : Volume) (buf : UInt32) : List Cell → List (UInt32 × Cluster)
  | [] => []
  | c :: l => (buf, v c) :: chainStores v (buf + clusterSize) l

theorem readChain_eq {l : List Cell} {fuel : ℕ} {n : UInt32} {s : Storage} (buf : UInt32)
    (hfuel : l.length < fuel) (hl : IsChain Cell.number fatEndOfFile s.clusterMap n l) :
    readChain s fuel n buf = .ok (chainStores s.volume buf l) := by
  induction l generalizing fuel n buf with
  | nil =>
    obtain ⟨fuel, rfl⟩ := Nat.exists_eq_add_of_lt hfuel
    have hstop : n = fatEndOfFile := hl
    rw [readChain, if_pos hstop]
    rfl
  | cons c l ih =>
    obtain ⟨rfl, hrest⟩ := hl
    rw [List.length_cons] at hfuel
    obtain ⟨fuel, rfl⟩ := Nat.exists_eq_add_of_le' (Nat.one_le_of_lt hfuel)
    rw [readChain, if_neg c.number_ne_endOfFile, cellAt_number]
    dsimp only
    rw [ih (buf + clusterSize) (Nat.lt_of_succ_lt_succ hfuel) hrest]
    rfl

def Volume.contents (v : Volume) (l : List Cell) (j : ℕ) : UInt8 :=
  match l[j / 2048]? with
  | some c => v c ⟨j % 2048, Nat.mod_lt j (by norm_num)⟩
  | none => 0

theorem Volume.contents_cons (v : Volume) (c : Cell) (l : List Cell) (j : ℕ) :
    v.contents (c :: l) (2048 + j) = v.contents l j := by
  have hdiv : (2048 + j) / 2048 = j / 2048 + 1 := by omega
  have hmod : (2048 + j) % 2048 = j % 2048 := by omega
  simp only [contents, hdiv, hmod, List.getElem?_cons_succ]

theorem Volume.contents_congr {v v' : Volume} {l : List Cell} (h : ∀ c ∈ l, v' c = v c) (j : ℕ) :
    v'.contents l j = v.contents l j := by
  rw [contents, contents]
  cases hc : l[j / 2048]? with
  | none => rfl
  | some c => exact congrFun (h c (List.mem_of_getElem? hc)) _

theorem store_apply (mem : Memory) (addr : UInt32) {n : ℕ} (data : Bytes n) {j : ℕ}
    (hj : j < 2 ^ 32) : mem.store addr data (addr + UInt32.ofNat j) =
      if h : j < n then data ⟨j, h⟩ else mem (addr + UInt32.ofNat j) := by
  have hoff : (addr + UInt32.ofNat j - addr).toNat = j := by
    rw [add_sub_cancel_left, UInt32.toNat_ofNat', Nat.mod_eq_of_lt hj]
  rw [Memory.store]
  simp only [hoff]

/-- Moving the base one cluster on moves the offset one cluster back, around the address space. -/
theorem offset_shift (buf : UInt32) (j j' : ℕ) (h : j = 2048 + j' ∨ j + 2 ^ 32 = 2048 + j') :
    buf + UInt32.ofNat j = buf + clusterSize + UInt32.ofNat j' := by
  have hsum : UInt32.ofNat j = clusterSize + UInt32.ofNat j' := by
    apply UInt32.toNat_inj.mp
    have hsize : clusterSize.toNat = 2048 := rfl
    rw [UInt32.toNat_add, hsize, UInt32.toNat_ofNat', UInt32.toNat_ofNat']
    omega
  rw [hsum, add_assoc]

theorem applyStores_behind (v : Volume) {l : List Cell} (mem : Memory) (buf : UInt32) {j : ℕ}
    (hlen : 2048 * l.length ≤ j) (hj : j < 2 ^ 32) :
    applyStores mem (chainStores v buf l) (buf + UInt32.ofNat j) = mem (buf + UInt32.ofNat j) := by
  induction l generalizing mem buf j with
  | nil => rfl
  | cons c l ih =>
    rw [List.length_cons] at hlen
    have hstep := ih (mem.store buf (v c)) (buf + clusterSize) (j := j - 2048) (by omega) (by omega)
    rw [← offset_shift buf j (j - 2048) (by omega), store_apply mem buf (v c) hj,
      dif_neg (by omega)] at hstep
    exact hstep

/-- The buffer holds the contents of the chain. -/
theorem applyStores_chainStores (v : Volume) {l : List Cell} (mem : Memory) (buf : UInt32) {j : ℕ}
    (hj : j < 2048 * l.length) (hlen : 2048 * l.length ≤ 2 ^ 32) :
    applyStores mem (chainStores v buf l) (buf + UInt32.ofNat j) = v.contents l j := by
  induction l generalizing mem buf j with
  | nil => exact absurd hj (Nat.not_lt_zero j)
  | cons c l ih =>
    rw [List.length_cons] at hj hlen
    by_cases hfirst : j < 2048
    · have hkeep := applyStores_behind v (l := l) (mem.store buf (v c)) (buf + clusterSize)
        (j := j + 2 ^ 32 - 2048) (by omega) (by omega)
      rw [← offset_shift buf j (j + 2 ^ 32 - 2048) (by omega),
        store_apply mem buf (v c) (by omega), dif_pos hfirst] at hkeep
      apply hkeep.trans
      simp only [Volume.contents, Nat.div_eq_of_lt hfirst, Nat.mod_eq_of_lt hfirst,
        List.getElem?_cons_zero]
    · obtain ⟨i, rfl⟩ := Nat.exists_eq_add_of_le (not_lt.mp hfirst)
      rw [offset_shift buf (2048 + i) i (.inl rfl), Volume.contents_cons]
      exact ih (mem.store buf (v c)) (buf + clusterSize) (by omega) (by omega)

/-- Reading a live file into a buffer of enough clusters. -/
theorem read_file {request : DriverRequest} {s : Storage} {p : Cell} {i : Fin 64} {l : List Cell}
    (hs : s.Consistent) (hreq : request.parentClusterNumber = p.number) (hn : request.Named)
    (he : s.volume.LiveEntry p i) (hm : request.Matches (s.volume.table p i))
    (hfile : ¬(s.volume.table p i).IsFolder) (hl : s.volume.EntryChain (s.volume.table p i) l)
    (hbuf : (clusterCount (s.volume.table p i).filesize).toNat ≤
      (request.bufferSize / clusterSize).toNat) :
    read request s = .ok (0, chainStores s.volume request.buf l) := by
  have hcell := hs.parent_cell he.existing
  have huniq := fun j => hs.wellFormed.match_unique (j := j) hn he hm
  have hfuel : l.length < walkFuel := by
    have hcard := hl.nodup.length_le_card
    rw [Fintype.card_fin] at hcard
    exact lt_of_le_of_lt hcard (by decide)
  have hl' : IsChain Cell.number fatEndOfFile s.clusterMap (s.volume.table p i).cluster l := by
    rw [← hs.cached]
    exact hl
  rw [read, hreq, cellAt_number]
  dsimp only
  rw [if_neg (not_not.mpr hcell), directoryTable_number, find_eq_some (List.mem_finRange i) hm huniq]
  dsimp only
  rw [if_neg (show (s.volume.table p i).attr ≠ 0x10 from hfile), if_neg (not_lt.mpr hbuf),
    readChain_eq request.buf hfuel hl']

theorem read_folder {request : DriverRequest} {s : Storage} {p : Cell} {i : Fin 64}
    (hs : s.Consistent) (hreq : request.parentClusterNumber = p.number) (hn : request.Named)
    (he : s.volume.LiveEntry p i) (hm : request.Matches (s.volume.table p i))
    (hf : (s.volume.table p i).IsFolder) : read request s = .ok (1, []) := by
  have hcell := hs.parent_cell he.existing
  have huniq := fun j => hs.wellFormed.match_unique (j := j) hn he hm
  rw [read, hreq, cellAt_number]
  dsimp only
  rw [if_neg (not_not.mpr hcell), directoryTable_number, find_eq_some (List.mem_finRange i) hm huniq]
  dsimp only
  rw [if_pos (show (s.volume.table p i).attr = 0x10 from hf)]

/-- Every way in which `read` ends for a directory whose link slots are folders. -/
inductive ReadOutcome (request : DriverRequest) (s : Storage) (p : Cell) :
    Except Fault (Int8 × List (UInt32 × Cluster)) → Prop
  | notFound (hnone : ∀ i, ¬request.Matches (s.volume.table p i)) :
      ReadOutcome request s p (.ok (2, []))
  | folder {i : Fin 64} (hm : request.Matches (s.volume.table p i))
      (hf : (s.volume.table p i).IsFolder) : ReadOutcome request s p (.ok (1, []))
  | tooSmall {i : Fin 64} (hm : request.Matches (s.volume.table p i))
      (hfile : ¬(s.volume.table p i).IsFolder)
      (hbuf : (request.bufferSize / clusterSize).toNat <
        (clusterCount (s.volume.table p i).filesize).toNat) :
      ReadOutcome request s p (.ok (-1, []))
  | done {i : Fin 64} {l : List Cell} (he : s.volume.LiveEntry p i)
      (hm : request.Matches (s.volume.table p i)) (hfile : ¬(s.volume.table p i).IsFolder)
      (hl : s.volume.EntryChain (s.volume.table p i) l)
      (hbuf : (clusterCount (s.volume.table p i).filesize).toNat ≤
        (request.bufferSize / clusterSize).toNat) :
      ReadOutcome request s p (.ok (0, chainStores s.volume request.buf l))

theorem Storage.Consistent.file_of_match {s : Storage} (hs : s.Consistent) {request : DriverRequest}
    {p : Cell} (hp : s.volume.Existing p) (hn : request.Named)
    (hlinks : (s.volume.table p 0).IsFolder ∧ (s.volume.table p 1).IsFolder) {i : Fin 64}
    (hm : request.Matches (s.volume.table p i)) (hfile : ¬(s.volume.table p i).IsFolder) :
    s.volume.LiveEntry p i := by
  refine ⟨hp, not_lt.mp fun hi => hfile ?_, ?_⟩
  · have hlink : i = 0 ∨ i = 1 := by omega
    rcases hlink with rfl | rfl
    · exact hlinks.1
    · exact hlinks.2
  · by_contra hfree
    rw [hs.wellFormed.free_zero hp i hfree] at hm
    exact hn hm

theorem read_outcome {request : DriverRequest} {s : Storage} {p : Cell} (hs : s.Consistent)
    (hp : s.volume.Existing p) (hreq : request.parentClusterNumber = p.number)
    (hn : request.Named)
    (hlinks : (s.volume.table p 0).IsFolder ∧ (s.volume.table p 1).IsFolder) :
    ReadOutcome request s p (read request s) := by
  have hcell := hs.parent_cell hp
  cases hfind : (List.finRange 64).find? (fun i => request.Matches (s.volume.table p i)) with
  | none =>
    rw [read, hreq, cellAt_number]
    dsimp only
    rw [if_neg (not_not.mpr hcell), directoryTable_number, hfind]
    refine .notFound fun i hm => ?_
    have hnone := List.find?_eq_none.mp hfind i (List.mem_finRange i)
    exact hnone (decide_eq_true hm)
  | some i =>
    have hsome := List.find?_some hfind
    have hm : request.Matches (s.volume.table p i) := of_decide_eq_true hsome
    by_cases hf : (s.volume.table p i).IsFolder
    · rw [read, hreq, cellAt_number]
      dsimp only
      rw [if_neg (not_not.mpr hcell), directoryTable_number, hfind]
      dsimp only
      rw [if_pos (show (s.volume.table p i).attr = 0x10 from hf)]
      exact .folder hm hf
    · have he := hs.file_of_match hp hn hlinks hm hf
      by_cases hbuf : (clusterCount (s.volume.table p i).filesize).toNat ≤
          (request.bufferSize / clusterSize).toNat
      · obtain ⟨l, hl, -⟩ := hs.wellFormed.chain he
        rw [read_file hs hreq hn he hm hf hl hbuf]
        exact .done he hm hf hl hbuf
      · rw [read, hreq, cellAt_number]
        dsimp only
        rw [if_neg (not_not.mpr hcell), directoryTable_number, hfind]
        dsimp only
        rw [if_neg (show (s.volume.table p i).attr ≠ 0x10 from hf), if_pos (not_le.mp hbuf)]
        exact .tooSmall hm hf (not_le.mp hbuf)

def lookup (t : DirectoryTable) (request : DriverRequest) : Option (Fin 64) :=
  (List.finRange 64).find? fun i => (t i).Live ∧ request.Matches (t i)

theorem lookup_eq_some {t : DirectoryTable} {request : DriverRequest} {i : Fin 64}
    (h : lookup t request = some i) : (t i).Live ∧ request.Matches (t i) := by
  simpa using List.find?_some h

theorem lookup_eq_none {t : DirectoryTable} {request : DriverRequest} :
    lookup t request = none ↔ ∀ i, (t i).Live → ¬request.Matches (t i) := by
  simp [lookup]

theorem lookup_unique {t : DirectoryTable} {request : DriverRequest} {i : Fin 64}
    (hi : (t i).Live) (hm : request.Matches (t i))
    (huniq : ∀ j, (t j).Live → request.Matches (t j) → j = i) : lookup t request = some i := by
  cases h : lookup t request with
  | none => exact absurd hm (lookup_eq_none.mp h i hi)
  | some j =>
    obtain ⟨hj, hm'⟩ := lookup_eq_some h
    rw [huniq j hj hm']

theorem lookup_zero {t : DirectoryTable} {request : DriverRequest} (hlive : (t 0).Live)
    (hm : request.Matches (t 0)) : lookup t request = some 0 := by
  rw [lookup, List.finRange_succ, List.find?_cons_of_pos (by simpa using ⟨hlive, hm⟩)]

section ReadDirectory
variable {request : DriverRequest} {s : Storage} {p : Cell} {i : Fin 64}

theorem readDirectory_none (hp : request.parentClusterNumber = p.number)
    (h : lookup (s.volume.table p) request = none) : readDirectory request s = (2, none) := by
  rw [lookup, ← directoryTable_number, ← hp] at h
  rw [readDirectory, h]

theorem readDirectory_file (hp : request.parentClusterNumber = p.number)
    (h : lookup (s.volume.table p) request = some i) (hfile : ¬(s.volume.table p i).IsFolder) :
    readDirectory request s = (1, none) := by
  rw [← directoryTable_number, ← hp] at h hfile
  rw [lookup] at h
  rw [readDirectory, h]
  exact if_neg hfile

theorem readDirectory_folder (hp : request.parentClusterNumber = p.number)
    (h : lookup (s.volume.table p) request = some i) (hfolder : (s.volume.table p i).IsFolder)
    {c : Cell} (hc : (s.volume.table p i).cluster = c.number) (hsize : 32 ≤ request.bufferSize) :
    readDirectory request s = (0, some (s.volume c)) := by
  rw [← directoryTable_number, ← hp] at h hfolder hc
  rw [lookup] at h
  rw [readDirectory, h]
  dsimp only
  rw [if_pos hfolder, if_neg (UInt32.not_lt.mpr hsize), hc]
  rfl

end ReadDirectory

end Os2024.FileSystem
