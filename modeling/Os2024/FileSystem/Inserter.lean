import Os2024.FileSystem.Undo

/-! # The external inserter

The inserter mounts an image in memory, deletes the entry of the target's name,
writes the target and saves the image, whatever the two calls return. What it saves
is compared here with what it has read in.
-/

namespace Os2024.FileSystem
open Library.PackedLayout Library.LinkedCells Library.Runs

/-- `isspace`. -/
def isSpace (c : UInt8) : Bool := c = 32 ∨ (9 ≤ c ∧ c ≤ 13)

/-- `sscanf(arg, "%8s", name)` into zeroed bytes: the first word, as far as it fits. -/
def scanName (arg : List UInt8) : Bytes 8 := fun i =>
  (((arg.takeWhile (· ≠ 0)).dropWhile isSpace).takeWhile (¬isSpace ·)).getD i 0

def fileBufferSize : ℕ := 4 * 1024 * 1024

def insertRequest (arg : List UInt8) (parentClusterNumber fileBuffer : UInt32) (filesize : ℕ) :
    DriverRequest where
  buf := fileBuffer
  name := scanName arg
  ext := fun _ => 0
  parentClusterNumber := parentClusterNumber
  bufferSize := UInt32.ofNat filesize

/-- The driver state of a program that starts, with the image as its disk. -/
def mountImage (image : Disk) : Storage :=
  initializeFilesystemFat32 ⟨fun _ => 0, image, []⟩

/-- `fread` of the target. -/
def loadTarget (mem : Memory) (fileBuffer : UInt32) (target : List UInt8) : Memory :=
  mem.store fileBuffer (target.take fileBufferSize).get

/-- The two calls of `main`; what `delete` returns is ignored. -/
def deleteAndWrite (mem : Memory) (request : DriverRequest) (s : Storage) :
    Except Fault (Int8 × Storage) :=
  match delete request s with
  | .error f => .error f
  | .ok (_, s) => write mem request s

/-- `main` from the file contents on: the return code of `write` and the image that is saved. The
arguments are `argv[1]`, the number read from `argv[2]` and the bytes of the target file, none when
it cannot be opened. -/
def inserter (arg : List UInt8) (parentClusterNumber : UInt32) (target : List UInt8) (mem : Memory)
    (fileBuffer : UInt32) (image : Disk) : Except Fault (Int8 × Disk) :=
  let request := insertRequest arg parentClusterNumber fileBuffer target.length
  match deleteAndWrite (loadTarget mem fileBuffer target) request (mountImage image) with
  | .error f => .error f
  | .ok (retcode, s) => .ok (retcode, s.disk)

structure WellFormedImage (image : Disk) : Prop where
  signed : Signed (diskVolume image)
  wellFormed : (diskVolume image).WellFormed

namespace Volume

/-- The live entry in slot `i` of `d` is the same in both volumes, a file with its contents. -/
structure Unchanged (v v' : Volume) (d : Cell) (i : Fin 64) : Prop where
  entry : v'.LiveEntry d i
  same : v'.table d i = v.table d i
  contents : ¬(v.table d i).IsFolder → ∀ l, v.EntryChain (v.table d i) l →
    v'.EntryChain (v.table d i) l ∧ ∀ j, v'.contents l j = v.contents l j

/-- The volumes have the same live entries, those that `skip` selects left out. -/
structure SameExcept (v v' : Volume) (skip : Cell → DirectoryEntry → Prop) : Prop where
  kept : ∀ d i, v.LiveEntry d i → ¬skip d (v.table d i) → v.Unchanged v' d i
  only : ∀ d i, v'.LiveEntry d i → ¬skip d (v'.table d i) →
    v.LiveEntry d i ∧ v.table d i = v'.table d i

end Volume

/-- A read of the entry from the saved image gives the bytes of the target. -/
def ReadsBack (request : DriverRequest) (target : List UInt8) (image : Disk) : Prop :=
  ∀ request' : DriverRequest, request'.parentClusterNumber = request.parentClusterNumber →
    request'.name = request.name → request'.ext = request.ext →
    2048 * clustersFor request.bufferSize ≤ request'.bufferSize.toNat →
    ∃ stores, read request' (mountImage image) = .ok (0, stores) ∧
      ∀ mem j (h : j < target.length),
        applyStores mem stores (request'.buf + UInt32.ofNat j) = target[j]

/-- The inserter returns. With a code other than 0 it has saved the entries that it found; with 0
the target can be read back and every other entry is as it was. -/
def InsertSafe (arg : List UInt8) (p : Cell) (target : List UInt8) (mem : Memory)
    (fileBuffer : UInt32) (image : Disk) : Prop :=
  ∃ retcode image', inserter arg p.number target mem fileBuffer image = .ok (retcode, image') ∧
    (retcode ≠ 0 → (diskVolume image).SameExcept (diskVolume image') fun _ _ => False) ∧
    (retcode = 0 → ReadsBack (insertRequest arg p.number fileBuffer target.length) target image' ∧
      (diskVolume image).SameExcept (diskVolume image') fun d e =>
        d = p ∧ (insertRequest arg p.number fileBuffer target.length).Matches e)

/-- When it is safe: a new name that is refused or fits, or the name of an entry that cannot be
deleted or is replaced by a file that fits. -/
def Insertable (request : DriverRequest) (v : Volume) (p : Cell) : Prop :=
  match firstMatch request (v.table p) with
  | none => (∃ i, request.Matches (v.table p i)) ∨ (∀ i, (v.table p i).Live) ∨
      (freeCells v.fat).length < (requiredSlots request.bufferSize).toNat ∨
      (request.bufferSize ≠ 0 ∧ clustersFor request.bufferSize ≤ 255)
  | some k => v.InUse (v.table p k) ∨ (request.Named ∧ request.bufferSize ≠ 0 ∧
      clustersFor request.bufferSize ≤ 255 ∧ clustersFor request.bufferSize ≤
        (freeCells v.fat).length + Volume.chainLength (v.table p k))

namespace Volume
variable {v v' v'' : Volume} {skip : Cell → DirectoryEntry → Prop}

theorem Kept.unchanged {p d : Cell} {i : Fin 64} (h : v.Kept v' p d i) (hv : v.WellFormed)
    (hp : v.Existing p) (he : v.LiveEntry d i) : v.Unchanged v' d i where
  entry := h.entry
  same := h.same
  contents hfile l hl := ⟨h.same ▸ h.chain l hl, h.contents hv hp he hfile hl⟩

theorem SameExcept.refl (v : Volume) (skip : Cell → DirectoryEntry → Prop) :
    v.SameExcept v skip where
  kept _ _ he _ := ⟨he, rfl, fun _ _ hl => ⟨hl, fun _ => rfl⟩⟩
  only _ _ he _ := ⟨he, rfl⟩

theorem SameExcept.trans (h : v.SameExcept v' skip) (h' : v'.SameExcept v'' skip) :
    v.SameExcept v'' skip where
  kept d i he hskip := by
    have hu := h.kept d i he hskip
    have hu' := h'.kept d i hu.entry (hu.same.symm ▸ hskip)
    refine ⟨hu'.entry, hu'.same.trans hu.same, fun hfile l hl => ?_⟩
    obtain ⟨hl', hbytes⟩ := hu.contents hfile l hl
    have hsecond := hu'.contents (hu.same.symm ▸ hfile) l
    rw [hu.same] at hsecond
    exact ⟨(hsecond hl').1, fun j => ((hsecond hl').2 j).trans (hbytes j)⟩
  only d i he hskip := by
    obtain ⟨he', heq'⟩ := h'.only d i he hskip
    obtain ⟨hold, heq⟩ := h.only d i he' (heq'.symm ▸ hskip)
    exact ⟨hold, heq.trans heq'⟩

end Volume

section Calls
variable {s s' : Storage} {p : Cell}

/-- A call leaves all entries alone that do not carry the name of its request in its parent. -/
theorem Effect.sameExcept {call : Call} (h : Effect p call s s') (hs : s.Consistent)
    (hp : s.volume.Existing p) :
    s.volume.SameExcept s'.volume fun d e => d = p ∧ call.request.Matches e where
  kept d i he hskip := by
    refine Volume.Kept.unchanged ((h.change hs).kept hs hp he ?_) hs.wellFormed hp he
    rintro request rfl rfl hm
    exact hskip ⟨rfl, hm⟩
  only d i he hskip := by
    rcases (h.change hs).liveEntry_cases hs hp he with
      ⟨hold, heq⟩ | ⟨mem, request, c, rest, rfl, rfl, w, hv⟩
    · exact ⟨hold, heq.symm⟩
    · refine absurd ⟨rfl, ?_⟩ hskip
      rw [hv]
      exact (w.entryWritten hs hp mem).named

end Calls

theorem mountImage_eq {image : Disk} (h : Signed (diskVolume image)) :
    mountImage image = ⟨(diskVolume image).fat, image, []⟩ :=
  initializeFilesystemFat32_signed (s := ⟨fun _ => 0, image, []⟩) h

theorem mountImage_consistent {image : Disk} (h : WellFormedImage image) :
    (mountImage image).Consistent ∧ (mountImage image).volume = diskVolume image := by
  rw [mountImage_eq h.signed]
  exact ⟨⟨h.wellFormed, rfl⟩, rfl⟩

structure Loaded (mem : Memory) (request : DriverRequest) (target : List UInt8) : Prop where
  small : target.length < fileBufferSize
  size : request.bufferSize.toNat = target.length
  bytes : ∀ j (h : j < target.length), bufferBytes mem request j = target[j]

theorem loaded_insertRequest (arg : List UInt8) (parentClusterNumber fileBuffer : UInt32)
    (mem : Memory) {target : List UInt8} (h : target.length < fileBufferSize) :
    Loaded (loadTarget mem fileBuffer target)
      (insertRequest arg parentClusterNumber fileBuffer target.length) target where
  small := h
  size := by
    rw [fileBufferSize] at h
    change (UInt32.ofNat target.length).toNat = target.length
    rw [UInt32.toNat_ofNat']
    omega
  bytes := by
    intro j hj
    have htake : (target.take fileBufferSize).length = target.length := by
      rw [List.length_take]
      omega
    rw [fileBufferSize] at h
    change loadTarget mem fileBuffer target (fileBuffer + UInt32.ofNat j) = target[j]
    rw [loadTarget, store_apply _ _ _ (by omega), dif_pos (by omega)]
    simp

/-- No read gives back more bytes than the chain has, and a folder gives back none. -/
theorem EntryWritten.not_readBack {request request' : DriverRequest} {s : Storage} {p : Cell}
    {k : Fin 64} {l : List Cell} (h : EntryWritten request s.volume p k l) (hs : s.Consistent)
    (hn : request.Named) (hreq : request'.parentClusterNumber = p.number)
    (hname : request'.name = request.name) (hext : request'.ext = request.ext)
    (hbuf : (clusterCount request.bufferSize).toNat ≤ (request'.bufferSize / clusterSize).toNat)
    {n : ℕ} (hlong : request.bufferSize = 0 ∨ 2048 * l.length < n) (hmax : n < 2 ^ 32)
    (data : ℕ → UInt8) : ¬∃ stores, read request' s = .ok (0, stores) ∧
      ∀ mem j, j < n → applyStores mem stores (request'.buf + UInt32.ofNat j) = data j := by
  rintro ⟨stores, hread, hstores⟩
  have hn' : request'.Named := by
    rw [DriverRequest.Named, DriverRequest.Matches, hname, hext]
    exact hn
  have hm : request'.Matches (s.volume.table p k) :=
    ⟨h.named.1.trans hname.symm, h.named.2.trans hext.symm⟩
  by_cases hf : (s.volume.table p k).IsFolder
  · rw [read_folder hs hreq hn' h.entry hm hf] at hread
    cases hread
  · have hlast := hlong.resolve_left fun h0 => hf (h.kind.mpr h0)
    rw [← h.size] at hbuf
    rw [read_file hs hreq hn' h.entry hm hf h.chain hbuf] at hread
    obtain ⟨-, rfl⟩ := Prod.mk.inj (Except.ok.inj hread)
    -- the first byte behind the chain is whatever memory held
    have hbehind := hstores (fun _ => data (2048 * l.length) + 1) (2048 * l.length) hlast
    rw [applyStores_behind s.volume _ _ le_rfl (by omega)] at hbehind
    simp at hbehind

section Replace
variable {request : DriverRequest} {target : List UInt8} {mem : Memory} {s s₁ : Storage} {p : Cell}
  {k : Fin 64} {c : Cell} {rest l : List Cell}

/-- What was written can be read back exactly when it is a file that fits. -/
theorem Written.readsBack_iff (w : Written request s p k c rest) (hload : Loaded mem request target)
    (hreq : request.parentClusterNumber = p.number) (hs : s.Consistent) (hp : s.volume.Existing p)
    (hsigned : Signed s.volume) :
    ReadsBack request target (writeResult mem request s p k c rest).disk ↔
      request.bufferSize ≠ 0 ∧ clustersFor request.bufferSize ≤ 255 := by
  have hnamed := w.named hs hp
  have hentry := w.entryWritten hs hp mem
  have hchange : Change p (.write mem request) s (writeResult mem request s p k c rest).volume :=
    .linked w
  have himage : WellFormedImage (writeResult mem request s p k c rest).disk :=
    ⟨hchange.signed hs hp hsigned, (w.consistent hs hp mem).wellFormed⟩
  obtain ⟨hmount, hvolume⟩ := mountImage_consistent himage
  change (mountImage _).volume = (writeResult mem request s p k c rest).volume at hvolume
  obtain ⟨hlen, hsize, hbytes⟩ := hload
  rw [fileBufferSize] at hlen
  constructor
  · intro hback
    -- a buffer that is large enough for any target
    let request' : DriverRequest := { request with bufferSize := 0xFFFFFFFF }
    have hbuf : 2048 * clustersFor request.bufferSize ≤ request'.bufferSize.toNat := by
      have hmax : request'.bufferSize.toNat = 0xFFFFFFFF := rfl
      rw [hmax, clustersFor, hsize]
      omega
    obtain ⟨stores, hread, hstores⟩ := hback request' rfl rfl rfl hbuf
    rw [← hvolume] at hentry
    have hcount : (clusterCount request.bufferSize).toNat ≤
        (request'.bufferSize / clusterSize).toNat :=
      le_trans (Nat.le_of_lt_succ (UInt8.toNat_lt _))
        (show 255 ≤ ((0xFFFFFFFF : UInt32) / clusterSize).toNat by decide)
    have hreq' : request'.parentClusterNumber = p.number := hreq
    have hname : request'.name = request.name := rfl
    have hext : request'.ext = request.ext := rfl
    by_contra hcond
    refine hentry.not_readBack hmount hnamed hreq' hname hext hcount (n := target.length) ?_
      (by omega) (fun j => target.getD j 0) ⟨stores, hread, fun mem' j hj => ?_⟩
    · by_cases h0 : request.bufferSize = 0
      · exact .inl h0
      · have hfew := requiredSlots_of_file h0 (by omega)
        have hlong : ¬clustersFor request.bufferSize ≤ 255 := fun hfit => hcond ⟨h0, hfit⟩
        rw [w.length, hfew]
        rw [clustersFor, hsize] at hlong ⊢
        exact .inr (by omega)
    · simpa [hj] using hstores mem' j hj
  · rintro ⟨hfile, hfit⟩ request' hreq' hname hext hbuf
    have hstored := w.stored hs hp (clustersFor_le.mp hfit) mem
    rw [← hvolume] at hstored
    obtain ⟨stores, hread, hstores⟩ := hstored.read hmount (hreq'.trans hreq) hnamed hfile hname
      hext (clustersFor_le.mp hfit) hbuf
    refine ⟨stores, hread, fun mem' j hj => ?_⟩
    rw [hstores mem' j (by omega), hbytes j hj]

def SafeOutcome (request : DriverRequest) (target : List UInt8) (p : Cell) (s : Storage) :
    Except Fault (Int8 × Storage) → Prop
  | .error _ => False
  | .ok (retcode, s') =>
    (retcode ≠ 0 → s.volume.SameExcept s'.volume fun _ _ => False) ∧
    (retcode = 0 → ReadsBack request target s'.disk ∧
      s.volume.SameExcept s'.volume fun d e => d = p ∧ request.Matches e)

theorem safeOutcome_unchanged {r : Int8} (hr : r ≠ 0) :
    SafeOutcome request target p s (.ok (r, s)) :=
  ⟨fun _ => .refl _ _, fun h0 => absurd h0 hr⟩

/-- With code 0 the other entries are safe, so only the new one decides. -/
theorem Written.safeOutcome_iff (w : Written request s₁ p k c rest)
    (hload : Loaded mem request target) (hreq : request.parentClusterNumber = p.number)
    (hs₁ : s₁.Consistent) (hp₁ : s₁.volume.Existing p) (hsigned : Signed s₁.volume)
    (hothers : s.volume.SameExcept s₁.volume fun d e => d = p ∧ request.Matches e) :
    SafeOutcome request target p s (.ok (0, writeResult mem request s₁ p k c rest)) ↔
      request.bufferSize ≠ 0 ∧ clustersFor request.bufferSize ≤ 255 := by
  rw [← w.readsBack_iff hload hreq hs₁ hp₁ hsigned]
  have heff : Effect p (.write mem request) s₁ (writeResult mem request s₁ p k c rest) := .linked w
  have hwrite := heff.sameExcept hs₁ hp₁
  exact ⟨fun h => (h.2 rfl).1, fun hback => ⟨fun hne => absurd rfl hne, fun _ =>
    ⟨hback, hothers.trans hwrite⟩⟩⟩

/-- When `delete` removes nothing, a new name has to be refused or to fit. -/
theorem safeOutcome_write_iff (hload : Loaded mem request target)
    (hreq : request.parentClusterNumber = p.number) (hs : s.Consistent) (hp : s.volume.Existing p)
    (hsigned : Signed s.volume) :
    SafeOutcome request target p s (write mem request s) ↔
      (∃ i, request.Matches (s.volume.table p i)) ∨ (∀ i, (s.volume.table p i).Live) ∨
      (freeCells s.clusterMap).length < (requiredSlots request.bufferSize).toNat ∨
      (request.bufferSize ≠ 0 ∧ clustersFor request.bufferSize ≤ 255) := by
  have hcell := hs.parent_cell hp
  have hlen : request.bufferSize.toNat < 2 ^ 24 := by
    rw [hload.size]
    exact hload.small.trans (by decide)
  have hout := write_outcome mem s hreq
  generalize write mem request s = out at hout
  cases hout with
  | refused h => exact absurd hcell h
  | taken _ hm => exact iff_of_true (safeOutcome_unchanged (by decide)) (.inl hm)
  | noSlot _ _ hfull =>
    exact iff_of_true (safeOutcome_unchanged (by decide)) (.inr (.inl (hs.all_live hp hfull)))
  | noRoom _ _ _ hfew =>
    exact iff_of_true (safeOutcome_unchanged (by decide)) (.inr (.inr (.inl hfew)))
  | noCell _ hfresh hslot hzero =>
    refine iff_of_false id ?_
    rintro (⟨i, hm⟩ | hall | hfew | ⟨h0, hfit⟩)
    · exact hfresh i hm
    · exact hslot.free (hall _)
    · omega
    · have hpos := clustersFor_pos h0
      rw [requiredSlots_of_file h0 hlen] at hzero
      omega
  | @done k c rest _ _ hcells w =>
    have hroom := congrArg List.length hcells
    rw [w.length, List.length_take] at hroom
    rw [w.safeOutcome_iff hload hreq hs hp hsigned (.refl _ _)]
    constructor
    · exact fun h => .inr (.inr (.inr h))
    · rintro (⟨i, hm⟩ | hall | hfew | h)
      · exact absurd hm (w.fresh i)
      · exact absurd (hall k) w.free
      · omega
      · exact h

/-- Without a new entry the old one is lost. -/
theorem Deleted.not_safeOutcome (w : Deleted s s₁ p k l) (hs : s.Consistent)
    (hp₁ : s₁.volume.Existing p) {r : Int8} (hr : r ≠ 0) :
    ¬SafeOutcome request target p s (.ok (r, s₁)) := by
  rintro ⟨hsame, -⟩
  have hlive := ((hsame hr).kept p k w.removable.entry id).entry.live
  rw [w.table hs hp₁, Function.update_self] at hlive
  exact absurd hlive (by decide)

theorem Deleted.fresh (w : Deleted s s₁ p k l) (hs : s.Consistent) (hp₁ : s₁.volume.Existing p)
    (hm : request.Matches (s.volume.table p k)) (hn : request.Named) (i : Fin 64) :
    ¬request.Matches (s₁.volume.table p i) := by
  intro hmi
  rw [w.table hs hp₁] at hmi
  by_cases hik : i = k
  · rw [hik, Function.update_self] at hmi
    exact hn hmi
  · rw [Function.update_of_ne hik] at hmi
    exact hik (hs.wellFormed.match_unique hn w.removable.entry hm hmi)

/-- An all-zero name is refused because of the slot that has become free. -/
theorem Deleted.write_unnamed (w : Deleted s s₁ p k l) (hs : s.Consistent)
    (hp₁ : s₁.volume.Existing p) (hreq : request.parentClusterNumber = p.number)
    (hn : ¬request.Named) : write mem request s₁ = .ok (1, s₁) := by
  have hmatch : request.Matches (s₁.volume.table p k) := by
    rw [w.table hs hp₁, Function.update_self]
    exact not_not.mp hn
  have hcell := (w.consistent hs).parent_cell hp₁
  have hout := write_outcome mem s₁ hreq
  generalize write mem request s₁ = out at hout
  cases hout with
  | refused h => exact absurd hcell h
  | taken => rfl
  | noSlot _ hfresh => exact absurd hmatch (hfresh k)
  | noRoom _ hfresh => exact absurd hmatch (hfresh k)
  | noCell _ hfresh => exact absurd hmatch (hfresh k)
  | done _ _ _ w' => exact absurd hmatch (w'.fresh k)

/-- When `delete` removes the old entry, the new one has to fit. -/
theorem Deleted.safeOutcome_iff (w : Deleted s s₁ p k l) (hload : Loaded mem request target)
    (hm : request.Matches (s.volume.table p k)) (hreq : request.parentClusterNumber = p.number)
    (hs : s.Consistent) (hp : s.volume.Existing p) (hsigned : Signed s.volume) :
    SafeOutcome request target p s (write mem request s₁) ↔
      request.Named ∧ request.bufferSize ≠ 0 ∧ clustersFor request.bufferSize ≤ 255 ∧
        clustersFor request.bufferSize ≤ (freeCells s.clusterMap).length + l.length := by
  have heff := Effect.unlinked hm w
  have hs₁ := w.consistent hs
  have hp₁ := heff.keeps_parent hs hp
  have hcell := hs₁.parent_cell hp₁
  have hlen : request.bufferSize.toNat < 2 ^ 24 := by
    rw [hload.size]
    exact hload.small.trans (by decide)
  have hrequired : request.bufferSize ≠ 0 → clustersFor request.bufferSize ≤ 255 →
      (requiredSlots request.bufferSize).toNat = clustersFor request.bufferSize := by
    intro h0 hfit
    rw [requiredSlots_of_file h0 hlen]
    omega
  have hcount := w.free_count hs
  by_cases hn : request.Named
  swap
  · rw [w.write_unnamed hs hp₁ hreq hn]
    exact iff_of_false (w.not_safeOutcome hs hp₁ (by decide)) fun h => hn h.1
  have hout := write_outcome mem s₁ hreq
  generalize write mem request s₁ = out at hout
  cases hout with
  | refused h => exact absurd hcell h
  | taken _ hmatch =>
    obtain ⟨i, hmi⟩ := hmatch
    exact absurd hmi (w.fresh hs hp₁ hm hn i)
  | noSlot _ _ hfull =>
    have hlive := hs₁.all_live hp₁ hfull k
    rw [w.table hs hp₁, Function.update_self] at hlive
    exact absurd hlive (by decide)
  | noRoom _ _ _ hfew =>
    refine iff_of_false (w.not_safeOutcome hs hp₁ (by decide)) ?_
    rintro ⟨-, h0, hfit, hroom⟩
    rw [hrequired h0 hfit] at hfew
    omega
  | noCell _ _ _ hnone =>
    refine iff_of_false id ?_
    rintro ⟨-, h0, hfit, -⟩
    rw [hrequired h0 hfit] at hnone
    exact absurd hnone (clustersFor_pos h0).ne'
  | @done _ _ _ _ _ hcells w' =>
    have hroom := congrArg List.length hcells
    rw [w'.length, List.length_take] at hroom
    rw [w'.safeOutcome_iff hload hreq hs₁ hp₁ ((heff.change hs).signed hs hp hsigned)
      (heff.sameExcept hs hp)]
    constructor
    · rintro ⟨h0, hfit⟩
      rw [hrequired h0 hfit] at hroom
      exact ⟨hn, h0, hfit, by omega⟩
    · rintro ⟨-, h0, hfit, -⟩
      exact ⟨h0, hfit⟩

/-- The two calls are safe exactly when the target can be inserted. -/
theorem safeOutcome_iff (hload : Loaded mem request target)
    (hreq : request.parentClusterNumber = p.number) (hs : s.Consistent) (hp : s.volume.Existing p)
    (hsigned : Signed s.volume) :
    SafeOutcome request target p s (deleteAndWrite mem request s) ↔
      Insertable request s.volume p := by
  rw [deleteAndWrite, Insertable]
  cases hfind : firstMatch request (s.volume.table p) with
  | none =>
    rw [delete_none hs hp hreq hfind, hs.cached]
    exact safeOutcome_write_iff hload hreq hs hp hsigned
  | some k =>
    have hm := (firstMatch_eq_some hfind).2
    dsimp only
    by_cases hlive : (s.volume.table p k).Live
    · rcases delete_live hs hp hreq hfind hlive with ⟨huse, hd⟩ | ⟨l, s₁, hd, w⟩
      · rw [hd]
        exact iff_of_true ((safeOutcome_write_iff hload hreq hs hp hsigned).mpr (.inl ⟨k, hm⟩))
          (.inl huse)
      · obtain ⟨he, hidle⟩ := Volume.removable_iff.mp w.removable
        obtain ⟨m, hl, -, -, hlen⟩ := hs.wellFormed.chain he
        rw [hd, hs.cached, ← hlen, hl.unique w.chain]
        exact (w.safeOutcome_iff hload hm hreq hs hp hsigned).trans (or_iff_right hidle).symm
    · rw [delete_free hs hp hreq hfind hlive]
      have hzero := hs.wellFormed.free_zero hp k hlive
      rw [hzero] at hm ⊢
      refine iff_of_false id ?_
      rintro (⟨hf, -⟩ | ⟨hn, -⟩)
      · exact absurd hf (by decide)
      · exact hn hm

end Replace

section Insert
variable {image : Disk} {p : Cell} {arg target : List UInt8} {mem : Memory} {fileBuffer : UInt32}

/-- Only the disk is saved of what the two calls leave. -/
theorem insertSafe_iff_safeOutcome (hw : WellFormedImage image) :
    InsertSafe arg p target mem fileBuffer image ↔
      SafeOutcome (insertRequest arg p.number fileBuffer target.length) target p (mountImage image)
        (deleteAndWrite (loadTarget mem fileBuffer target)
          (insertRequest arg p.number fileBuffer target.length) (mountImage image)) := by
  have hvolume := (mountImage_consistent hw).2
  rw [InsertSafe, inserter]
  generalize deleteAndWrite (loadTarget mem fileBuffer target)
    (insertRequest arg p.number fileBuffer target.length) (mountImage image) = out
  cases out with
  | error f =>
    refine iff_of_false ?_ id
    rintro ⟨r, image', hok, -⟩
    cases hok
  | ok result =>
    obtain ⟨r, s'⟩ := result
    rw [SafeOutcome, hvolume]
    constructor
    · rintro ⟨r, image', hok, h⟩
      obtain ⟨rfl, rfl⟩ := Prod.mk.inj (Except.ok.inj hok)
      exact h
    · exact fun h => ⟨r, s'.disk, rfl, h⟩

/-- For every well-formed image, existing parent and target below 4 MiB, the inserter keeps what it
should keep exactly when the target can be inserted. -/
theorem insertSafe_iff (hw : WellFormedImage image) (hp : (diskVolume image).Existing p)
    (hlen : target.length < fileBufferSize) :
    InsertSafe arg p target mem fileBuffer image ↔
      Insertable (insertRequest arg p.number fileBuffer target.length) (diskVolume image) p := by
  obtain ⟨hs, hvolume⟩ := mountImage_consistent hw
  have hload := loaded_insertRequest arg p.number fileBuffer mem hlen
  rw [insertSafe_iff_safeOutcome hw, ← hvolume]
  exact safeOutcome_iff hload rfl hs (hvolume ▸ hp) (hvolume ▸ hw.signed)

end Insert

theorem blankImage_wellFormed : WellFormedImage (createFat32 blankStorage).disk :=
  ⟨createFat32_signed _, (createFat32_consistent _).wellFormed⟩

def noteArg : List UInt8 := [110, 111, 116, 101]

theorem insertSafe_note :
    InsertSafe noteArg 2 [1, 2, 3, 4, 5] (fun _ => 0) 0x1000 (createFat32 blankStorage).disk := by
  refine (insertSafe_iff blankImage_wellFormed .refl (by decide)).mpr ?_
  have hfresh : ∀ i, ¬(insertRequest noteArg (2 : Cell).number 0x1000 5).Matches
      ((createFat32 blankStorage).volume.table 2 i) :=
    createFat32_fresh blankStorage (by decide) (by decide)
  have hnone : firstMatch (insertRequest noteArg (2 : Cell).number 0x1000 5)
      ((createFat32 blankStorage).volume.table 2) = none :=
    firstMatch_eq_none.mpr fun i _ => hfresh i
  change Insertable (insertRequest noteArg (2 : Cell).number 0x1000 5)
    (createFat32 blankStorage).volume 2
  rw [Insertable, hnone]
  exact .inr (.inr (.inr (by decide)))

def oldRequest : DriverRequest := { noteRequest with ext := fun _ => 0 }

/-- A file of 257 clusters never replaces another one safely. -/
theorem not_insertSafe_long {image : Disk} (hw : WellFormedImage image) {p : Cell} {k : Fin 64}
    {l : List Cell} (h : EntryWritten oldRequest (diskVolume image) p k l) {target : List UInt8}
    (hlen : target.length = 526336) (mem : Memory) (fileBuffer : UInt32) :
    ¬InsertSafe noteArg p target mem fileBuffer image := by
  obtain ⟨hs, hvolume⟩ := mountImage_consistent hw
  have hlt : target.length < fileBufferSize := by
    rw [hlen]
    decide
  have hload := loaded_insertRequest noteArg p.number fileBuffer mem hlt
  have hm : (insertRequest noteArg p.number fileBuffer target.length).Matches
      ((diskVolume image).table p k) :=
    ⟨h.named.1.trans (show oldRequest.name = scanName noteArg by decide), h.named.2⟩
  rw [insertSafe_iff_safeOutcome hw,
    safeOutcome_iff hload rfl hs (hvolume ▸ h.entry.existing) (hvolume ▸ hw.signed), hvolume,
    Insertable]
  have hlong : ¬clustersFor
      (insertRequest noteArg p.number fileBuffer target.length).bufferSize ≤ 255 := by
    rw [clustersFor_le, hload.size, hlen]
    decide
  cases hfind : firstMatch (insertRequest noteArg p.number fileBuffer target.length)
      ((diskVolume image).table p) with
  | none => exact absurd hm (firstMatch_eq_none.mp hfind k h.entry.slot)
  | some j =>
    have hn : (insertRequest noteArg p.number fileBuffer target.length).Named :=
      fun h0 => absurd (show DirectoryEntry.zero.name = scanName noteArg from h0.1) (by decide)
    obtain rfl := hw.wellFormed.match_unique hn h.entry hm (firstMatch_eq_some hfind).2
    rintro (⟨hf, -⟩ | ⟨-, -, hfit, -⟩)
    · exact absurd (h.kind.mp hf) (by decide)
    · exact hlong hfit

/-- The old file is replaced by one that has lost all but its first cluster. -/
theorem inserter_loses : ∃ s, write (fun _ => 7) oldRequest (createFat32 blankStorage) = .ok (0, s) ∧
    WellFormedImage s.disk ∧ (diskVolume s.disk).Existing 2 ∧
    ¬InsertSafe noteArg 2 (List.replicate 526336 7) (fun _ => 0) 0x1000 s.disk := by
  have hs := createFat32_consistent blankStorage
  have hfresh : ∀ i, ¬oldRequest.Matches ((createFat32 blankStorage).volume.table 2 i) :=
    createFat32_fresh blankStorage (by decide) (by decide)
  have hcount : (clusterCount oldRequest.bufferSize).toNat = 2 := clusterCount_toNat (by decide)
  obtain ⟨s, hw⟩ := write_formatted blankStorage (fun _ => 7) rfl hfresh
    (.inr fun h0 => absurd hcount (by rw [h0]; decide))
  obtain ⟨-, k, c, rest, w, rfl⟩ := write_done (p := 2) rfl hw
  have hchange : Change 2 (.write (fun _ => 7) oldRequest) (createFat32 blankStorage)
      (writeResult (fun _ => 7) oldRequest (createFat32 blankStorage) 2 k c rest).volume := .linked w
  have himage : WellFormedImage
      (writeResult (fun _ => 7) oldRequest (createFat32 blankStorage) 2 k c rest).disk :=
    ⟨hchange.signed hs .refl (createFat32_signed blankStorage),
      (w.consistent hs .refl fun _ => 7).wellFormed⟩
  exact ⟨_, hw, himage, .refl, not_insertSafe_long himage (w.entryWritten hs .refl fun _ => 7)
    List.length_replicate _ _⟩

end Os2024.FileSystem
