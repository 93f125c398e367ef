import Os2024.FileSystem.Guards
import Os2024.FileSystem.RoundTrip

/-! # What write and delete report

For a valid request the return code says exactly what the directory and the file
allocation table looked like, and a code other than 0 leaves both as they were.
Sizes beyond the 8-bit cluster count are also settled: the chain is then too short,
and the code is 0 all the same.
-/

namespace Os2024.FileSystem
open Library.PackedLayout Library.LinkedCells Library.Runs

def clustersFor (size : UInt32) : ℕ := (size.toNat + 2047) / 2048

theorem clustersFor_pos {size : UInt32} (h : size ≠ 0) : 0 < clustersFor size := by
  have hpos : 0 < size.toNat := Nat.pos_of_ne_zero fun h0 => h (UInt32.toNat_inj.mp h0)
  rw [clustersFor]
  omega

theorem clustersFor_le {size : UInt32} : clustersFor size ≤ 255 ↔ size.toNat ≤ maxFileSize := by
  rw [clustersFor, maxFileSize]
  omega

theorem requiredSlots_of_valid {size : UInt32} (h : size.toNat ≤ maxFileSize) :
    (requiredSlots size).toNat = max 1 (clustersFor size) := by
  by_cases h0 : size = 0
  · subst h0
    simp [requiredSlots_folder, clustersFor]
  · have hpos := clustersFor_pos h0
    rw [requiredSlots, if_neg h0, clusterCount_of_valid h, ← clustersFor]
    omega

def LowestFree (t : DirectoryTable) (k : Fin 64) : Prop := ¬(t k).Live ∧ ∀ j < k, (t j).Live

theorem FirstFree.lowest {t : DirectoryTable} {k : Fin 64} (h : FirstFree t k) (h0 : (t 0).Live) :
    LowestFree t k := by
  refine ⟨h.free, fun j hj => ?_⟩
  by_cases hj0 : j = 0
  · exact hj0 ▸ h0
  · exact h.before j hj hj0

/-- The return code `r` and the state after a `write` into directory `p`. -/
structure WriteReport (request : DriverRequest) (s : Storage) (p : Cell) (r : Int8) (s' : Storage) :
    Prop where
  taken : r = 1 ↔ ∃ i, request.Matches (s.volume.table p i)
  noRoom : r = -1 ↔ (∀ i, ¬request.Matches (s.volume.table p i)) ∧
    ((∀ i, (s.volume.table p i).Live) ∨
      (freeCells s.clusterMap).length < max 1 (clustersFor request.bufferSize))
  done : r = 0 ↔ (∀ i, ¬request.Matches (s.volume.table p i)) ∧
    (∃ i, ¬(s.volume.table p i).Live) ∧
      max 1 (clustersFor request.bufferSize) ≤ (freeCells s.clusterMap).length
  entry : r = 0 → ∃ k, LowestFree (s.volume.table p) k ∧ EntryWritten request s'.volume p k
    ((freeCells s.clusterMap).take (max 1 (clustersFor request.bufferSize)))
  unchanged : r ≠ 0 → s' = s

/-- No code is given for two reasons. -/
theorem write_report {s : Storage} (hs : s.Consistent) (mem : Memory) {request : DriverRequest}
    {p : Cell} (hreq : request.parentClusterNumber = p.number) (hp : s.volume.Existing p)
    (hsize : request.bufferSize.toNat ≤ maxFileSize) :
    ∃ r s', write mem request s = .ok (r, s') ∧ WriteReport request s p r s' := by
  have hcell := hs.parent_cell hp
  have h0 := (hs.wellFormed.links hp).1
  have hrequired := requiredSlots_of_valid hsize
  have hout := write_outcome mem s hreq
  generalize write mem request s = out at hout
  cases hout with
  | refused h => exact absurd hcell h
  | taken _ hm =>
    have hsome : ¬∀ i, ¬request.Matches (s.volume.table p i) := not_forall_not.mpr hm
    exact ⟨1, s, rfl, by simpa using hm, by simp [hsome], by simp [hsome], by simp, fun _ => rfl⟩
  | noSlot _ hfresh hfull =>
    have hall := hs.all_live hp hfull
    exact ⟨-1, s, rfl, by simpa using hfresh, by simp [hfresh, hall], by simp [hall], by simp,
      fun _ => rfl⟩
  | noRoom _ hfresh hslot hfew =>
    rw [hrequired] at hfew
    have hroom : ¬max 1 (clustersFor request.bufferSize) ≤ (freeCells s.clusterMap).length :=
      not_le.mpr hfew
    exact ⟨-1, s, rfl, by simpa using hfresh, by simp only [hfresh, hfew]; simp,
      by simp only [hroom]; simp, by simp, fun _ => rfl⟩
  | noCell _ _ _ hzero => omega
  | @done k c rest _ hslot hcells w =>
    have hlen := congrArg List.length hcells
    rw [w.length, List.length_take] at hlen
    have hroom : ¬(freeCells s.clusterMap).length < max 1 (clustersFor request.bufferSize) := by
      omega
    have hnotfull : ¬∀ i, (s.volume.table p i).Live := fun hall => w.free (hall k)
    have hentry := w.entryWritten hs hp mem
    rw [hrequired] at hcells
    refine ⟨0, _, rfl, by simpa using w.fresh, by simp only [hroom, hnotfull]; simp, ?_, fun _ => ?_,
      fun h => absurd rfl h⟩
    · simpa only [true_iff] using ⟨w.fresh, ⟨k, w.free⟩, not_lt.mp hroom⟩
    · exact ⟨k, hslot.lowest h0, hcells ▸ hentry⟩

/-- The return code `r` and the state after a `delete` from directory `p`. -/
structure DeleteReport (request : DriverRequest) (s : Storage) (p : Cell) (r : Int8)
    (s' : Storage) : Prop where
  notFound : r = 1 ↔ ∀ i, 2 ≤ i → ¬request.Matches (s.volume.table p i)
  inUse : r = 2 ↔ ∃ i, 2 ≤ i ∧ request.Matches (s.volume.table p i) ∧
    s.volume.InUse (s.volume.table p i)
  done : r = 0 ↔ ∃ i, 2 ≤ i ∧ request.Matches (s.volume.table p i) ∧
    ¬s.volume.InUse (s.volume.table p i)
  unchanged : r ≠ 0 → s' = s

theorem delete_report {s : Storage} (hs : s.Consistent) {request : DriverRequest} {p : Cell}
    (hreq : request.parentClusterNumber = p.number) (hp : s.volume.Existing p)
    (hn : request.Named) :
    ∃ r s', delete request s = .ok (r, s') ∧ DeleteReport request s p r s' := by
  have hclear := hn.clear hs.wellFormed hp
  have hone : ∀ {k i}, 2 ≤ k → request.Matches (s.volume.table p k) →
      request.Matches (s.volume.table p i) → i = k := fun hk hm hm' =>
    hs.wellFormed.match_unique hn ⟨hp, hk, hclear _ hk hm⟩ hm hm'
  have hout := delete_outcome hs hp hreq hclear
  generalize delete request s = out at hout
  cases hout with
  | notFound hnone =>
    refine ⟨1, s, rfl, by simpa using hnone, ?_, ?_, fun _ => rfl⟩
    · simp only [show ¬(1 : Int8) = 2 by decide, false_iff]
      rintro ⟨i, hi, hm, -⟩
      exact hnone i hi hm
    · simp only [show ¬(1 : Int8) = 0 by decide, false_iff]
      rintro ⟨i, hi, hm, -⟩
      exact hnone i hi hm
  | @inUse k hk hm huse =>
    refine ⟨2, s, rfl, ?_, by simpa using ⟨k, hk, hm, huse⟩, ?_, fun _ => rfl⟩
    · simp only [show ¬(2 : Int8) = 1 by decide, false_iff]
      exact fun hnone => hnone k hk hm
    · simp only [show ¬(2 : Int8) = 0 by decide, false_iff]
      rintro ⟨i, -, hm', hidle⟩
      rw [hone hk hm hm'] at hidle
      exact hidle huse
  | @done s' k l hm w =>
    obtain ⟨he, hidle⟩ := Volume.removable_iff.mp w.removable
    refine ⟨0, s', rfl, ?_, ?_, by simpa using ⟨k, he.slot, hm, hidle⟩, fun h => absurd rfl h⟩
    · simp only [show ¬(0 : Int8) = 1 by decide, false_iff]
      exact fun hnone => hnone k he.slot hm
    · simp only [show ¬(0 : Int8) = 2 by decide, false_iff]
      rintro ⟨i, -, hm', huse⟩
      rw [hone he.slot hm hm'] at huse
      exact hidle huse

/-- In every state of a valid run the codes of `write` and `delete` say exactly what a valid request
has met, and a code other than 0 leaves the storage as it was. -/
theorem validRun_reports (s₀ : Storage) {s : Storage} (hrun : Run ValidStep (createFat32 s₀) s)
    {request : DriverRequest} (hv : request.Valid s.volume) {p : Cell}
    (hreq : request.parentClusterNumber = p.number) (mem : Memory) :
    (∃ r s', write mem request s = .ok (r, s') ∧ WriteReport request s p r s') ∧
      ∃ r s', delete request s = .ok (r, s') ∧ DeleteReport request s p r s' := by
  have hs := (sound_of_run hrun).toConsistent
  obtain ⟨q, hq, hp⟩ := hv.parent
  obtain rfl : q = p := Cell.number_injective (hq.symm.trans hreq)
  exact ⟨write_report hs mem hreq hp hv.size, delete_report hs hreq hp hv.named⟩

theorem validRun_reports_note :
    (∃ r s', write (fun _ => 7) noteRequest (createFat32 blankStorage) = .ok (r, s') ∧
      WriteReport noteRequest (createFat32 blankStorage) 2 r s') ∧
    ∃ r s', delete noteRequest (createFat32 blankStorage) = .ok (r, s') ∧
      DeleteReport noteRequest (createFat32 blankStorage) 2 r s' :=
  validRun_reports blankStorage (Run.refl _) noteRequest_valid rfl fun _ => 7

/-- The entry of the request has a cluster for every 2048 bytes, and a read into a large enough
buffer gives all its bytes back. -/
def FullyWritten (mem : Memory) (request : DriverRequest) (s : Storage) (p : Cell) : Prop :=
  (∃ k l, EntryWritten request s.volume p k l ∧ l.length = clustersFor request.bufferSize) ∧
  ∀ request' : DriverRequest, request'.parentClusterNumber = p.number →
    request'.name = request.name → request'.ext = request.ext →
    2048 * clustersFor request.bufferSize ≤ request'.bufferSize.toNat →
    ∃ stores, read request' s = .ok (0, stores) ∧ ∀ mem' j, j < request.bufferSize.toNat →
      applyStores mem' stores (request'.buf + UInt32.ofNat j) = mem (request.buf + UInt32.ofNat j)

/-- The write returns; on 0 the file is there in full, and with too few free cells it returns -1. -/
def Untruncated (mem : Memory) (request : DriverRequest) (s : Storage) (p : Cell) : Prop :=
  ∃ r s', write mem request s = .ok (r, s') ∧ (r = 0 → FullyWritten mem request s' p) ∧
    ((freeCells s.clusterMap).length < clustersFor request.bufferSize → r = -1)

theorem requiredSlots_of_file {size : UInt32} (h0 : size ≠ 0) (h : size.toNat < 2 ^ 24) :
    (requiredSlots size).toNat = clustersFor size % 256 := by
  rw [requiredSlots, if_neg h0, clusterCount_toNat h, clustersFor]

/-- The chain of a written entry is as long as the 8-bit count says. -/
theorem Written.not_fullyWritten {request : DriverRequest} {s : Storage} {p : Cell} {k : Fin 64}
    {c : Cell} {rest : List Cell} (w : Written request s p k c rest) (hs : s.Consistent)
    (hp : s.volume.Existing p) (mem : Memory) (hn : request.Named)
    (hlong : (requiredSlots request.bufferSize).toNat ≠ clustersFor request.bufferSize) :
    ¬FullyWritten mem request (writeResult mem request s p k c rest) p := by
  rintro ⟨⟨k', l, hentry, hlen⟩, -⟩
  have hnew := w.entryWritten hs hp mem
  obtain rfl : k = k' := (w.consistent hs hp mem).wellFormed.match_unique hn hentry.entry
    hentry.named hnew.named
  rw [hentry.chain.unique hnew.chain, w.length] at hlen
  exact hlong hlen

/-- The file is there in full exactly when its cluster count fits into 8 bits. -/
theorem Written.fullyWritten_iff {request : DriverRequest} {s : Storage} {p : Cell} {k : Fin 64}
    {c : Cell} {rest : List Cell} (w : Written request s p k c rest) (hs : s.Consistent)
    (hp : s.volume.Existing p) (mem : Memory) (hn : request.Named)
    (h0 : request.bufferSize ≠ 0) (hsize : request.bufferSize.toNat < 2 ^ 24) :
    FullyWritten mem request (writeResult mem request s p k c rest) p ↔
      clustersFor request.bufferSize ≤ 255 := by
  have hrequired := requiredSlots_of_file h0 hsize
  constructor
  · intro hfull
    by_contra hfit
    refine w.not_fullyWritten hs hp mem hn ?_ hfull
    omega
  · intro hfit
    have hmax := clustersFor_le.mp hfit
    have hlen : (c :: rest).length = clustersFor request.bufferSize := by
      rw [w.length]
      omega
    refine ⟨⟨k, c :: rest, w.entryWritten hs hp mem, hlen⟩, fun request' hreq' hname hext hbuf => ?_⟩
    exact (w.stored hs hp hmax mem).read (w.consistent hs hp mem) hreq' hn h0 hname hext hmax hbuf

/-- Nothing is cut off exactly when the count fits or no free cell is missed. -/
theorem untruncated_iff {s : Storage} (hs : s.Consistent) (mem : Memory) {request : DriverRequest}
    {p : Cell} (hreq : request.parentClusterNumber = p.number) (hp : s.volume.Existing p)
    (hn : request.Named) (h0 : request.bufferSize ≠ 0) (hsize : request.bufferSize.toNat < 2 ^ 24) :
    Untruncated mem request s p ↔
      if ∃ i, request.Matches (s.volume.table p i) then
        clustersFor request.bufferSize ≤ (freeCells s.clusterMap).length
      else (∀ i, (s.volume.table p i).Live) ∨ clustersFor request.bufferSize ≤ 255 ∨
        (freeCells s.clusterMap).length < clustersFor request.bufferSize % 256 := by
  have hcell := hs.parent_cell hp
  have hrequired := requiredSlots_of_file h0 hsize
  have hpos := clustersFor_pos h0
  have hout := write_outcome mem s hreq
  rw [Untruncated]
  generalize write mem request s = out at hout
  cases hout with
  | refused h => exact absurd hcell h
  | taken _ hm =>
    rw [if_pos hm]
    constructor
    · rintro ⟨r, s', heq, -, hfew⟩
      obtain ⟨rfl, -⟩ := Prod.mk.inj (Except.ok.inj heq)
      exact not_lt.mp fun hlt => absurd (hfew hlt) (by decide)
    · intro hroom
      exact ⟨1, s, rfl, fun h => absurd h (by decide), fun hfew => absurd hroom (not_le.mpr hfew)⟩
  | noSlot _ hfresh hfull =>
    have hall := hs.all_live hp hfull
    rw [if_neg (not_exists.mpr hfresh)]
    exact iff_of_true ⟨-1, s, rfl, fun h => absurd h (by decide), fun _ => rfl⟩ (.inl hall)
  | noRoom _ hfresh _ hfew =>
    rw [if_neg (not_exists.mpr hfresh)]
    rw [hrequired] at hfew
    exact iff_of_true ⟨-1, s, rfl, fun h => absurd h (by decide), fun _ => rfl⟩ (.inr (.inr hfew))
  | noCell _ hfresh hslot hzero =>
    rw [if_neg (not_exists.mpr hfresh)]
    refine iff_of_false (by rintro ⟨_, _, heq, -⟩; cases heq) ?_
    rintro (hall | hfit | hmiss)
    · exact hslot.free (hall _)
    · omega
    · omega
  | @done k c rest _ _ hcells w =>
    rw [if_neg (not_exists.mpr w.fresh)]
    have hroom := congrArg List.length hcells
    rw [w.length, List.length_take] at hroom
    have hfull := w.fullyWritten_iff hs hp mem hn h0 hsize
    constructor
    · rintro ⟨r, s', heq, hthere, -⟩
      obtain ⟨rfl, rfl⟩ := Prod.mk.inj (Except.ok.inj heq)
      exact .inr (.inl (hfull.mp (hthere rfl)))
    · rintro (hall | hfit | hmiss)
      · exact absurd (hall k) w.free
      · exact ⟨0, _, rfl, fun _ => hfull.mpr hfit, fun hfew => by omega⟩
      · omega

/-- Along guarded runs a file is cut off or its lack of room goes unnoticed exactly when its cluster
count does not fit into 8 bits and the remainder does, apart from a name that is taken. -/
theorem guardedRun_untruncated_iff (s₀ : Storage) {s : Storage}
    (hrun : Run GuardedStep (createFat32 s₀) s) (mem : Memory) {request : DriverRequest} {p : Cell}
    (hreq : request.parentClusterNumber = p.number) (hp : s.volume.Existing p)
    (hn : request.Named) (h0 : request.bufferSize ≠ 0) (hsize : request.bufferSize.toNat < 2 ^ 24) :
    Untruncated mem request s p ↔
      if ∃ i, request.Matches (s.volume.table p i) then
        clustersFor request.bufferSize ≤ (freeCells s.clusterMap).length
      else (∀ i, (s.volume.table p i).Live) ∨ clustersFor request.bufferSize ≤ 255 ∨
        (freeCells s.clusterMap).length < clustersFor request.bufferSize % 256 :=
  untruncated_iff (guarded_of_run hrun).toConsistent mem hreq hp hn h0 hsize

theorem guardedRun_untruncated_note : ∃ s,
    write (fun _ => 7) noteRequest (createFat32 blankStorage) = .ok (0, s) ∧
      Untruncated (fun _ => 7) otherRequest s 2 := by
  obtain ⟨s, k, c, d, h⟩ := exists_noteWritten
  have hiff : Untruncated (fun _ => 7) otherRequest s 2 ↔ _ :=
    guardedRun_untruncated_iff blankStorage ((Run.refl _).tail h.step) (fun _ => 7) rfl .refl
      (by decide) (by decide) (by decide)
  rw [if_neg (not_exists.mpr h.other)] at hiff
  exact ⟨s, h.ran, hiff.mpr (.inr (.inl (by decide)))⟩

def longRequest : DriverRequest := { noteRequest with bufferSize := 526336 }

/-- It is written with a chain of one cluster, and 0 is returned. -/
theorem write_truncates : longRequest.Named ∧ longRequest.bufferSize.toNat < 2 ^ 24 ∧
    clustersFor longRequest.bufferSize = 257 ∧
    ∃ s' k c, write (fun _ => 7) longRequest (createFat32 blankStorage) = .ok (0, s') ∧
      EntryWritten longRequest s'.volume 2 k [c] ∧ ¬FullyWritten (fun _ => 7) longRequest s' 2 := by
  have hs := createFat32_consistent blankStorage
  have hcount : (clusterCount longRequest.bufferSize).toNat = 1 := clusterCount_toNat (by decide)
  have hrequired : (requiredSlots longRequest.bufferSize).toNat = 1 :=
    requiredSlots_of_file (by decide) (by decide)
  obtain ⟨s', hw⟩ : ∃ s', write (fun _ => 7) longRequest (createFat32 blankStorage) = .ok (0, s') :=
    write_formatted blankStorage (fun _ => 7) rfl noteRequest_fresh
      (.inr fun h0 => absurd hcount (by rw [h0]; decide))
  obtain ⟨-, k, c, rest, w, rfl⟩ := write_done (p := 2) rfl hw
  have hlen := w.length
  rw [hrequired, List.length_cons] at hlen
  obtain rfl : rest = [] := List.length_eq_zero_iff.mp (by omega)
  have hlong : (requiredSlots longRequest.bufferSize).toNat ≠ clustersFor longRequest.bufferSize := by
    rw [hrequired]
    decide
  exact ⟨by decide, by decide, by decide, _, k, c, hw, w.entryWritten hs .refl _,
    w.not_fullyWritten hs .refl _ (by decide) hlong⟩

end Os2024.FileSystem
