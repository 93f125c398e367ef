import Os2024.FileSystem.Links
import Os2024.FileSystem.RoundTrip

/-! # What read_directory checks

`read_directory` looks for a live entry in whatever the parent cluster holds and
stores a whole table as soon as the buffer has room for one entry. Its
documentation speaks of an existing parent and of room for the table; the two agree
exactly when the search leads nowhere or both hold.
-/

namespace Os2024.FileSystem
open Library.PackedLayout Library.LinkedCells

/-- Some live entry of the existing directory that the request names is the subdirectory. -/
def Listed (request : DriverRequest) (s : Storage) : Prop :=
  ∃ p : Cell, request.parentClusterNumber = p.number ∧ s.volume.Existing p ∧
    ∃ i, (s.volume.table p i).Live ∧ request.Matches (s.volume.table p i) ∧
      (s.volume.table p i).IsFolder

/-- The documented behaviour of `read_directory`. -/
structure ReadsDirectory (request : DriverRequest) (s : Storage) : Prop where
  success : (readDirectory request s).1 = 0 ↔
    Listed request s ∧ 2048 ≤ request.bufferSize.toNat
  table : (readDirectory request s).1 = 0 → ∃ i,
    (s.directoryTable request.parentClusterNumber i).Live ∧
    request.Matches (s.directoryTable request.parentClusterNumber i) ∧
    (s.directoryTable request.parentClusterNumber i).IsFolder ∧
    (readDirectory request s).2 =
      some (readClusters (s.directoryTable request.parentClusterNumber i).cluster s.disk)
  untouched : (readDirectory request s).1 ≠ 0 → (readDirectory request s).2 = none
  within : ∀ data, (readDirectory request s).2 = some data → 2048 ≤ request.bufferSize.toNat

/-- Every way in which `read_directory` ends, whatever the parent is. -/
inductive ReadDirectoryOutcome (request : DriverRequest) (s : Storage) (t : DirectoryTable) :
    Int8 × Option Cluster → Prop
  | notFound (hnone : lookup t request = none) : ReadDirectoryOutcome request s t (2, none)
  | file {i : Fin 64} (hi : lookup t request = some i) (hfile : ¬(t i).IsFolder) :
      ReadDirectoryOutcome request s t (1, none)
  | tooSmall {i : Fin 64} (hi : lookup t request = some i) (hf : (t i).IsFolder)
      (hbuf : request.bufferSize < 32) : ReadDirectoryOutcome request s t (-1, none)
  | done {i : Fin 64} (hi : lookup t request = some i) (hf : (t i).IsFolder)
      (hbuf : 32 ≤ request.bufferSize) :
      ReadDirectoryOutcome request s t (0, some (readClusters (t i).cluster s.disk))

theorem readDirectory_outcome (request : DriverRequest) (s : Storage) :
    ReadDirectoryOutcome request s (s.directoryTable request.parentClusterNumber)
      (readDirectory request s) := by
  cases hfind : lookup (s.directoryTable request.parentClusterNumber) request with
  | none =>
    have hscan := hfind
    rw [lookup] at hscan
    rw [readDirectory, hscan]
    exact .notFound hfind
  | some i =>
    have hscan := hfind
    rw [lookup] at hscan
    rw [readDirectory, hscan]
    dsimp only
    by_cases hf : (s.directoryTable request.parentClusterNumber i).IsFolder
    · rw [if_pos hf]
      by_cases hbuf : request.bufferSize < 32
      · rw [if_pos hbuf]
        exact .tooSmall hfind hf hbuf
      · rw [if_neg hbuf]
        exact .done hfind hf (UInt32.not_lt.mp hbuf)
    · rw [if_neg hf]
      exact .file hfind hf

theorem Listed.match {request : DriverRequest} {s : Storage} (h : Listed request s) :
    ∃ i, (s.directoryTable request.parentClusterNumber i).Live ∧
      request.Matches (s.directoryTable request.parentClusterNumber i) := by
  obtain ⟨p, hreq, -, i, hlive, hm, -⟩ := h
  rw [hreq, directoryTable_number]
  exact ⟨i, hlive, hm⟩

/-- Whatever the parent is, a table is stored together with the code 0 and only then. -/
theorem readDirectory_stored (request : DriverRequest) (s : Storage) :
    ((readDirectory request s).1 = 0 → ∃ i,
      (s.directoryTable request.parentClusterNumber i).Live ∧
      request.Matches (s.directoryTable request.parentClusterNumber i) ∧
      (s.directoryTable request.parentClusterNumber i).IsFolder ∧
      (readDirectory request s).2 =
        some (readClusters (s.directoryTable request.parentClusterNumber i).cluster s.disk)) ∧
    ((readDirectory request s).1 ≠ 0 → (readDirectory request s).2 = none) := by
  have hout := readDirectory_outcome request s
  generalize readDirectory request s = out at hout
  cases hout with
  | done hi hf =>
    obtain ⟨hlive, hm⟩ := lookup_eq_some hi
    exact ⟨fun _ => ⟨_, hlive, hm, hf, rfl⟩, fun hne => absurd rfl hne⟩
  | _ => exact ⟨fun hzero => absurd hzero (by decide), fun _ => rfl⟩

/-- So the documentation is kept as soon as the code 0 means what it should. -/
theorem readsDirectory_iff_success {request : DriverRequest} {s : Storage} :
    ReadsDirectory request s ↔ ((readDirectory request s).1 = 0 ↔
      Listed request s ∧ 2048 ≤ request.bufferSize.toNat) := by
  obtain ⟨htable, huntouched⟩ := readDirectory_stored request s
  constructor
  · exact fun h => h.success
  · intro hsuccess
    refine ⟨hsuccess, htable, huntouched, fun data hdata => ?_⟩
    by_contra hshort
    have hne : (readDirectory request s).1 ≠ 0 := fun h0 => hshort (hsuccess.mp h0).2
    rw [huntouched hne] at hdata
    cases hdata

/-- For every storage and every request `read_directory` does what its documentation says exactly
when no live entry matches; or the first one is a subdirectory and the buffer cannot hold an entry,
or the parent exists and the buffer can hold the table; or the first one is a file and no existing
parent with such a buffer lists a subdirectory behind it. -/
theorem readsDirectory_iff (request : DriverRequest) (s : Storage) :
    ReadsDirectory request s ↔
      ∀ i, lookup (s.directoryTable request.parentClusterNumber) request = some i →
        if (s.directoryTable request.parentClusterNumber i).IsFolder then
          request.bufferSize < 32 ∨ ((∃ p : Cell, request.parentClusterNumber = p.number ∧
            s.volume.Existing p) ∧ 2048 ≤ request.bufferSize.toNat)
        else ¬(Listed request s ∧ 2048 ≤ request.bufferSize.toNat) := by
  have hout := readDirectory_outcome request s
  rw [readsDirectory_iff_success]
  generalize readDirectory request s = out at hout
  constructor
  · intro hsuccess i hi
    cases hout with
    | notFound hnone => exact absurd (hnone.symm.trans hi) (by simp)
    | file hj hfile =>
      obtain rfl := Option.some.inj (hj.symm.trans hi)
      rw [if_neg hfile]
      exact fun h => absurd (hsuccess.mpr h) (by decide)
    | tooSmall hj hf hbuf =>
      obtain rfl := Option.some.inj (hj.symm.trans hi)
      rw [if_pos hf]
      exact .inl hbuf
    | done hj hf hbuf =>
      obtain rfl := Option.some.inj (hj.symm.trans hi)
      rw [if_pos hf]
      obtain ⟨⟨p, hreq, hp, -⟩, hsize⟩ := hsuccess.mp rfl
      exact .inr ⟨⟨p, hreq, hp⟩, hsize⟩
  · intro h
    cases hout with
    | notFound hnone =>
      refine iff_of_false (by decide) fun hlisted => ?_
      obtain ⟨i, hlive, hm⟩ := hlisted.1.match
      exact lookup_eq_none.mp hnone i hlive hm
    | file hi hfile =>
      have hcond := h _ hi
      rw [if_neg hfile] at hcond
      exact iff_of_false (by decide) hcond
    | tooSmall hi hf hbuf =>
      refine iff_of_false (by decide) fun hlisted => ?_
      have hlt : request.bufferSize.toNat < 32 := UInt32.lt_iff_toNat_lt.mp hbuf
      omega
    | done hi hf hbuf =>
      have hcond := h _ hi
      rw [if_pos hf] at hcond
      obtain ⟨⟨p, hreq, hp⟩, hsize⟩ := hcond.resolve_left (UInt32.not_lt.mpr hbuf)
      obtain ⟨hlive, hm⟩ := lookup_eq_some hi
      rw [hreq, directoryTable_number] at hlive hm hf
      exact iff_of_true rfl ⟨⟨p, hreq, hp, _, hlive, hm, hf⟩, hsize⟩

def shortRequest : DriverRequest := { folderRequest with bufferSize := 32 }

/-- A whole table is stored into a buffer of 32 bytes. -/
theorem readDirectory_overruns : ∃ s' c,
    write (fun _ => 0) folderRequest (createFat32 blankStorage) = .ok (0, s') ∧
    readDirectory shortRequest s' = (0, some (s'.volume c)) ∧ ¬ReadsDirectory shortRequest s' := by
  have hs := createFat32_consistent blankStorage
  have hfresh : ∀ i, ¬folderRequest.Matches ((createFat32 blankStorage).volume.table 2 i) :=
    createFat32_fresh blankStorage (by decide) (by decide)
  obtain ⟨s', hw⟩ := write_formatted blankStorage (fun _ => 0) rfl hfresh (.inl rfl)
  obtain ⟨-, k, c, rest, w, rfl⟩ := write_done (p := 2) rfl hw
  obtain ⟨hl, hentry⟩ := w.lists hs .refl rfl fun _ => 0
  have hm : shortRequest.Matches ((writeResult (fun _ => 0) folderRequest
      (createFat32 blankStorage) 2 k c rest).volume.table 2 k) := by
    rw [hentry]
    exact ⟨rfl, rfl⟩
  have hlook := lookup_unique hl.live hm fun j _ hj =>
    (w.consistent hs .refl fun _ => 0).wellFormed.match_unique (by decide) hl.toLiveEntry hm hj
  have hread := readDirectory_folder (p := 2) rfl hlook hl.folder hl.cluster (by decide)
  refine ⟨_, c, hw, hread, fun h => ?_⟩
  have hwithin := h.within _ (congrArg Prod.snd hread)
  exact absurd hwithin (by decide)

end Os2024.FileSystem
