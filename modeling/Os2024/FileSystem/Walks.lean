import Os2024.FileSystem.Links

/-! # How far the walks go

The loops of `read` and `delete` have no counter. In every state of a valid run
they follow the chain of a live entry, which has at most 255 cells and none of the
reserved ones, and the buffer of a `read` is at least as long as the chain.
-/

namespace Os2024.FileSystem
open Library.PackedLayout Library.LinkedCells Library.Runs

/-- From cluster `n` on the cached table leads through the cells of `l` to the end mark: at most
255 of them, each a number from 3 to 511. -/
structure Walk (s : Storage) (n : UInt32) (l : List Cell) : Prop where
  chain : IsChain Cell.number fatEndOfFile s.clusterMap n l
  short : l.length ≤ 255
  inRange : ∀ c ∈ l, 3 ≤ c.val ∧ c.val ≤ 511

theorem chainLength_le (e : DirectoryEntry) : Volume.chainLength e ≤ 255 := by
  rw [Volume.chainLength]
  split
  · decide
  · exact Nat.le_of_lt_succ (UInt8.toNat_lt _)

/-- The chain of a live entry is short and in range. -/
theorem Storage.Consistent.walk {s : Storage} (hs : s.Consistent) {d : Cell} {i : Fin 64}
    (he : s.volume.LiveEntry d i) : ∃ l, l ≠ [] ∧ s.volume.EntryChain (s.volume.table d i) l ∧
      Walk s (s.volume.table d i).cluster l := by
  obtain ⟨l, hl, hne, hge, hlen⟩ := hs.wellFormed.chain he
  refine ⟨l, hne, hl, ?_, hlen ▸ chainLength_le _, fun c hc => ⟨hge c hc, by omega⟩⟩
  rw [← hs.cached]
  exact hl

/-- 255 passes of the loop of `read` are enough, and the 256th test of its condition ends it. -/
theorem Walk.readChain {s : Storage} {n : UInt32} {l : List Cell} (h : Walk s n l) (buf : UInt32) :
    readChain s 256 n buf = .ok (chainStores s.volume buf l) :=
  readChain_eq buf (Nat.lt_succ_of_le h.short) h.chain

/-- 255 passes of the loop of `delete` are enough, whatever has been written to the disk. -/
theorem Walk.freeChain {s t : Storage} {n : UInt32} {l : List Cell} (h : Walk s n l) (hne : l ≠ [])
    (ht : t.clusterMap = s.clusterMap) : ∃ t', freeChain 255 n t = .ok t' ∧ Freed t t' l :=
  freeChain_freed hne h.short (ht ▸ h.chain)

theorem chainStores_length (v : Volume) (buf : UInt32) (l : List Cell) :
    (chainStores v buf l).length = l.length := by
  induction l generalizing buf with
  | nil => rfl
  | cons c l ih => simp [chainStores, ih]

/-- What `read` leaves in memory behind the buffer, whatever was there. -/
def WithinBuffer (request : DriverRequest) (stores : List (UInt32 × Cluster)) : Prop :=
  2048 * stores.length ≤ request.bufferSize.toNat ∧
    ∀ mem a, request.bufferSize.toNat ≤ (a - request.buf).toNat → applyStores mem stores a = mem a

theorem withinBuffer_nil (request : DriverRequest) : WithinBuffer request [] :=
  ⟨Nat.zero_le _, fun _ _ _ => rfl⟩

theorem withinBuffer_chainStores {request : DriverRequest} (v : Volume) {l : List Cell}
    (hl : 2048 * l.length ≤ request.bufferSize.toNat) :
    WithinBuffer request (chainStores v request.buf l) := by
  refine ⟨by rwa [chainStores_length], fun mem a ha => ?_⟩
  have hbehind := applyStores_behind v (l := l) mem request.buf (j := (a - request.buf).toNat)
    (by omega) (UInt32.toNat_lt _)
  have haddr : request.buf + UInt32.ofNat (a - request.buf).toNat = a := by
    rw [UInt32.ofNat_toNat, add_sub_cancel]
  rwa [haddr] at hbehind

/-- The return code and the stores of `read`: on 0 it has walked the chain of a file. -/
structure ReadWalk (request : DriverRequest) (s : Storage) (p : Cell) (r : Int8)
    (stores : List (UInt32 × Cluster)) : Prop where
  within : WithinBuffer request stores
  walked : r = 0 → ∃ i l, request.Matches (s.volume.table p i) ∧
    Walk s (s.volume.table p i).cluster l ∧ stores = chainStores s.volume request.buf l
  quiet : r ≠ 0 → stores = []

theorem read_walk {request : DriverRequest} {s : Storage} {p : Cell} (hs : LinkSlots s)
    (hp : s.volume.Existing p) (hreq : request.parentClusterNumber = p.number)
    (hn : request.Named) :
    ∃ r stores, read request s = .ok (r, stores) ∧ ReadWalk request s p r stores := by
  have hout := read_outcome hs.toConsistent hp hreq hn (hs.folders hp)
  generalize read request s = out at hout
  have hnone : ∀ r : Int8, r ≠ 0 → ReadWalk request s p r [] := fun r hr =>
    ⟨withinBuffer_nil request, fun h => absurd h hr, fun _ => rfl⟩
  cases hout with
  | notFound => exact ⟨2, [], rfl, hnone 2 (by decide)⟩
  | folder => exact ⟨1, [], rfl, hnone 1 (by decide)⟩
  | tooSmall => exact ⟨-1, [], rfl, hnone (-1) (by decide)⟩
  | @done i l he hm hfile hl hbuf =>
    obtain ⟨m, -, hm', hwalk⟩ := hs.walk he
    obtain rfl := hl.unique hm'
    obtain ⟨m, hm', -, -, hlen⟩ := hs.wellFormed.chain he
    rw [← hl.unique hm', Volume.chainLength, if_neg hfile] at hlen
    have hunit : clusterSize.toNat = 2048 := rfl
    rw [UInt32.toNat_div, hunit] at hbuf
    exact ⟨0, _, rfl, withinBuffer_chainStores _ (by omega), fun _ => ⟨i, l, hm, hwalk, rfl⟩,
      fun h => absurd rfl h⟩

/-- In every state of a valid run, for every existing parent and every name that is not all zero,
`read` and `delete` return and `read` stays in its buffer. Their loops start on the chain of a
matching entry, end after at most 255 passes and index the table from 3 to 511 only. -/
theorem validRun_walks (s₀ : Storage) {s : Storage} (hrun : Run ValidStep (createFat32 s₀) s)
    {request : DriverRequest} {p : Cell} (hreq : request.parentClusterNumber = p.number)
    (hp : s.volume.Existing p) (hn : request.Named) :
    (∃ r stores, read request s = .ok (r, stores) ∧ ReadWalk request s p r stores) ∧
    (∃ r s', delete request s = .ok (r, s')) ∧
    (∀ i, request.Matches (s.volume.table p i) → ¬(s.volume.table p i).IsFolder →
      ∃ l, Walk s (s.volume.table p i).cluster l ∧ ∀ buf,
        readChain s 256 (s.volume.table p i).cluster buf = .ok (chainStores s.volume buf l)) ∧
    (∀ i, 2 ≤ i → request.Matches (s.volume.table p i) →
      ∃ l, Walk s (s.volume.table p i).cluster l ∧ ∀ t, t.clusterMap = s.clusterMap →
        ∃ t', freeChain 255 (s.volume.table p i).cluster t = .ok t' ∧ Freed t t' l) := by
  have hs := linkSlots_of_run hrun
  have hclear := hn.clear hs.wellFormed hp
  refine ⟨read_walk hs hp hreq hn, ?_, fun i hm hfile => ?_, fun i hi hm => ?_⟩
  · have hout := delete_outcome hs.toConsistent hp hreq hclear
    generalize delete request s = out at hout
    cases hout with
    | notFound => exact ⟨1, s, rfl⟩
    | inUse => exact ⟨2, s, rfl⟩
    | done => exact ⟨0, _, rfl⟩
  · have he := hs.file_of_match hp hn (hs.folders hp) hm hfile
    obtain ⟨l, -, -, hwalk⟩ := hs.walk he
    exact ⟨l, hwalk, hwalk.readChain⟩
  · obtain ⟨l, hne, -, hwalk⟩ := hs.walk ⟨hp, hi, hclear i hi hm⟩
    exact ⟨l, hwalk, fun t ht => hwalk.freeChain hne ht⟩

theorem validRun_walks_note : ∃ s,
    write (fun _ => 7) noteRequest (createFat32 blankStorage) = .ok (0, s) ∧
    (∃ r stores, read noteRequest s = .ok (r, stores) ∧ ReadWalk noteRequest s 2 r stores) ∧
    ∃ r s', delete noteRequest s = .ok (r, s') := by
  obtain ⟨s, hw, hstep⟩ := writeStep_note fun _ => 7
  have hnamed : noteRequest.Named := by decide
  obtain ⟨hread, hdelete, -⟩ :=
    validRun_walks blankStorage ((Run.refl _).tail hstep) (p := 2) rfl .refl hnamed
  exact ⟨s, hw, hread, hdelete⟩

end Os2024.FileSystem
