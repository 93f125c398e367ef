import Os2024.FileSystem.Calls

/-! # The invariant of valid runs

A valid call names an existing directory, a name that is not all zero bytes and a
size the 8-bit cluster count can hold. Along runs of such calls no cell leaks, so
the file allocation table and the directory tree describe each other exactly.
-/

namespace Os2024.FileSystem
open Library.PackedLayout Library.LinkedCells Library.Runs

/-- The largest size whose cluster count fits into 8 bits. -/
def maxFileSize : ℕ := 255 * 2048

/-- The requests that callers are expected to send. -/
structure DriverRequest.Valid (request : DriverRequest) (v : Volume) : Prop where
  parent : ∃ p : Cell, request.parentClusterNumber = p.number ∧ v.Existing p
  named : request.Named
  size : request.bufferSize.toNat ≤ maxFileSize

/-- A valid write or delete that returns. -/
def ValidStep (s : Storage) (call : Call) (s' : Storage) : Prop :=
  (∀ request, call ≠ .read request) ∧ call.request.Valid s.volume ∧ ∃ r, call.exec s = .ok (r, s')

theorem clusterCount_of_valid {size : UInt32} (h : size.toNat ≤ maxFileSize) :
    (clusterCount size).toNat = (size.toNat + 2047) / 2048 := by
  rw [maxFileSize] at h
  rw [clusterCount_toNat (by omega), Nat.mod_eq_of_lt (by omega)]

theorem ValidStep.effect {s s' : Storage} {call : Call} (h : ValidStep s call s')
    (hs : s.Consistent) : ∃ p : Cell, call.request.parentClusterNumber = p.number ∧
      s.volume.Existing p ∧ Effect p call s s' := by
  obtain ⟨-, ⟨⟨p, hreq, hp⟩, hn, -⟩, r, hexec⟩ := h
  refine ⟨p, hreq, hp, exec_effect hs hp hreq ?_ hexec⟩
  rintro request rfl
  exact hn.clear hs.wellFormed hp

/-- Valid writes and deletes always return. -/
theorem valid_returns {s : Storage} (hs : s.Consistent) (mem : Memory) {request : DriverRequest}
    (hv : request.Valid s.volume) : (∃ r s', write mem request s = .ok (r, s')) ∧
      ∃ r s', delete request s = .ok (r, s') := by
  obtain ⟨⟨p, hreq, hp⟩, hn, hsize⟩ := hv
  constructor
  · apply write_returns mem s hreq
    by_contra hzero
    rw [not_or, not_not] at hzero
    have hcount := clusterCount_of_valid hsize
    rw [hzero.2] at hcount
    have hpos : 0 < request.bufferSize.toNat :=
      Nat.pos_of_ne_zero fun h => hzero.1 (UInt32.toNat_inj.mp h)
    have h0 : (0 : UInt8).toNat = 0 := rfl
    omega
  · rcases delete_cases hs hp hreq (hn.clear hs.wellFormed hp) with ⟨h, -⟩ | ⟨k, -, -, h | h⟩
    · exact ⟨_, _, h⟩
    · exact ⟨_, _, h⟩
    · obtain ⟨l, s', h, -⟩ := h
      exact ⟨_, _, h⟩

def Volume.Sized (v : Volume) : Prop :=
  ∀ {d i}, v.LiveEntry d i → (v.table d i).filesize.toNat ≤ maxFileSize

theorem Change.sized {p : Cell} {call : Call} {s : Storage} {v : Volume} (h : Change p call s v)
    (hs : s.Consistent) (hp : s.volume.Existing p)
    (hsize : call.request.bufferSize.toNat ≤ maxFileSize) (hold : s.volume.Sized) : v.Sized := by
  intro d i he
  rcases h.liveEntry_cases hs hp he with ⟨hlive, heq⟩ | ⟨mem, request, c, rest, rfl, rfl, hw, rfl⟩
  · rw [heq]
    exact hold hlive
  · rw [writeResult_entry]
    exact hsize

theorem chainLength_of_sized {e : DirectoryEntry} (h : e.filesize.toNat ≤ maxFileSize) :
    Volume.chainLength e = if e.IsFolder then 1 else (e.filesize.toNat + 2047) / 2048 := by
  rw [Volume.chainLength, clusterCount_of_valid h]

/-- Every cell in use is reserved or lies on the chain of a live entry. -/
def NoLeak (s : Storage) : Prop :=
  ∀ c, s.clusterMap c ≠ fatEmptyEntry → c < 3 ∨ s.volume.Owned c

theorem Effect.noLeak {p : Cell} {call : Call} {s s' : Storage} (h : Effect p call s s')
    (hs : s.Consistent) (hp : s.volume.Existing p) (hleak : NoLeak s) : NoLeak s' := by
  intro c hc
  cases h with
  | unchanged => exact hleak c hc
  | @linked mem request _ k d rest w =>
    have hagree := w.agrees hs mem
    have hfits := w.fits hs hp mem
    rw [w.volume hs hp mem, hfits.owned_iff (hagree.wellFormed hs.wellFormed) c,
      ← hagree.owned_iff hs.wellFormed c]
    by_cases hmem : c ∈ d :: rest
    · exact .inr (.inr hmem)
    · have hmap : (writeResult mem request s p k d rest).clusterMap = _ := (w.prepared hs mem).map
      rw [hmap, link_outside hmem] at hc
      exact (hleak c hc).imp_right .inl
  | @unlinked _ _ _ _ l _ w =>
    rw [w.map] at hc
    rw [← (w.agrees hs).owned_iff (w.removable.wellFormed hs.wellFormed) c,
      w.removable.owned_iff hs.wellFormed w.chain c]
    by_cases hmem : c ∈ l
    · exact absurd (clear_of_mem hmem) hc
    · rw [clear_of_not_mem hmem] at hc
      exact (hleak c hc).imp_right fun ho => ⟨ho, hmem⟩

structure Sound (s : Storage) : Prop extends s.Consistent where
  signed : Signed s.volume
  sized : s.volume.Sized
  noLeak : NoLeak s

theorem createFat32_sound (s : Storage) : Sound (createFat32 s) where
  toConsistent := createFat32_consistent s
  signed := createFat32_signed s
  sized he := absurd he (Volume.not_liveEntry_of_fresh (createFat32_root s) _ _)
  noLeak := by
    intro c hc
    refine .inl (not_le.mp fun hge => hc ?_)
    have hne : c ≠ 0 ∧ c ≠ 1 ∧ c ≠ 2 := by
      have hge' : 3 ≤ c.val := hge
      simp only [ne_eq, Fin.ext_iff]
      refine ⟨?_, ?_, ?_⟩ <;> intro h <;> rw [h] at hge' <;> exact absurd hge' (by decide)
    change formattedMap c = fatEmptyEntry
    rw [formattedMap, Function.update_of_ne hne.2.2, Function.update_of_ne hne.2.1,
      Function.update_of_ne hne.1]

/-- The step lemma of valid runs. -/
theorem Sound.step {s s' : Storage} {call : Call} (hs : Sound s) (h : ValidStep s call s') :
    Sound s' := by
  obtain ⟨p, -, hp, heff⟩ := h.effect hs.toConsistent
  exact
    { toConsistent := heff.consistent hs.toConsistent hp
      signed := (heff.change hs.toConsistent).signed hs.toConsistent hp hs.signed
      sized := (heff.change hs.toConsistent).sized hs.toConsistent hp h.2.1.size hs.sized
      noLeak := heff.noLeak hs.toConsistent hp hs.noLeak }

theorem sound_of_run {s₀ s : Storage} (h : Run ValidStep (createFat32 s₀) s) : Sound s :=
  h.invariant (createFat32_sound s₀) fun _ _ _ hs hstep => hs.step hstep

/-- The file allocation table and the directory tree describe each other. -/
structure Intact (s : Storage) : Prop where
  cached : s.volume.fat = s.clusterMap
  chains : ∀ {d i}, s.volume.LiveEntry d i → ∃ l, s.volume.EntryChain (s.volume.table d i) l ∧
    l.Nodup ∧ (∀ c ∈ l, 3 ≤ c) ∧ l.length = if (s.volume.table d i).IsFolder then 1
      else ((s.volume.table d i).filesize.toNat + 2047) / 2048
  disjoint : ∀ {d i d' i' l l'}, s.volume.LiveEntry d i → s.volume.LiveEntry d' i' →
    s.volume.EntryChain (s.volume.table d i) l → s.volume.EntryChain (s.volume.table d' i') l' →
    (d, i) ≠ (d', i') → l.Disjoint l'
  cells : ∀ c, s.clusterMap c ≠ fatEmptyEntry ↔ c = 0 ∨ c = 1 ∨ c = 2 ∨ s.volume.Owned c
  names : ∀ {d i j}, s.volume.LiveEntry d i → s.volume.LiveEntry d j →
    (s.volume.table d i).name = (s.volume.table d j).name →
    (s.volume.table d i).ext = (s.volume.table d j).ext → i = j

theorem Sound.intact {s : Storage} (h : Sound s) : Intact s where
  cached := h.cached
  chains he := by
    obtain ⟨l, hl, -, hge, hlen⟩ := h.wellFormed.chain he
    exact ⟨l, hl, hl.nodup, hge, hlen.trans (chainLength_of_sized (h.sized he))⟩
  disjoint := h.wellFormed.disjoint
  cells c := by
    have hleak := h.noLeak c
    have hused := h.wellFormed.used_ne_empty (c := c)
    rw [Cell.lt_three_iff, or_assoc, or_assoc] at hleak hused
    rw [h.cached] at hused
    exact ⟨hleak, hused⟩
  names he he' := h.wellFormed.names he.existing _ _ he.slot he.live he'.live

/-- Valid runs keep the file system intact, and every valid call returns. -/
theorem validRun_intact (s₀ : Storage) {s : Storage} (h : Run ValidStep (createFat32 s₀) s) :
    Intact s ∧ ∀ mem request, DriverRequest.Valid request s.volume →
      (∃ r s', write mem request s = .ok (r, s')) ∧ ∃ r s', delete request s = .ok (r, s') :=
  ⟨(sound_of_run h).intact, fun mem _ hv => valid_returns (sound_of_run h).toConsistent mem hv⟩

def blankStorage : Storage := ⟨fun _ => 0, fun _ _ => 0, []⟩

/-- A file note.txt of 3000 bytes in the root. -/
def noteRequest : DriverRequest :=
  ⟨0x1000, ![110, 111, 116, 101, 0, 0, 0, 0], ![116, 120, 116], 2, 3000⟩

theorem noteRequest_valid : noteRequest.Valid (createFat32 blankStorage).volume :=
  ⟨⟨2, rfl, .refl⟩, by decide, by decide⟩

theorem noteRequest_fresh (i : Fin 64) :
    ¬noteRequest.Matches ((createFat32 blankStorage).volume.table 2 i) := fun hm =>
  absurd (hm.2.symm.trans (createFat32_ext blankStorage i)) (by decide)

theorem write_note_journal (mem : Memory) (journal : List ClusterWrite) : ∃ s',
    write mem noteRequest { createFat32 blankStorage with journal := journal } = .ok (0, s') := by
  refine write_formatted_journal blankStorage journal mem rfl noteRequest_fresh (.inr fun hzero => ?_)
  have hcount := clusterCount_of_valid noteRequest_valid.size
  rw [hzero] at hcount
  exact absurd hcount (by decide)

theorem write_note (mem : Memory) :
    ∃ s', write mem noteRequest (createFat32 blankStorage) = .ok (0, s') :=
  write_note_journal mem (createFat32 blankStorage).journal

theorem writeStep_note (mem : Memory) : ∃ s',
    write mem noteRequest (createFat32 blankStorage) = .ok (0, s') ∧
      ValidStep (createFat32 blankStorage) (.write mem noteRequest) s' := by
  obtain ⟨s', hw⟩ := write_note mem
  exact ⟨s', hw, by rintro _ ⟨⟩, noteRequest_valid, 0, hw⟩

theorem validRun_intact_note : ∃ s',
    write (fun _ => 7) noteRequest (createFat32 blankStorage) = .ok (0, s') ∧ Intact s' := by
  obtain ⟨s', hw, hstep⟩ := writeStep_note (fun _ => 7)
  exact ⟨s', hw, (validRun_intact blankStorage ((Run.refl _).tail hstep)).1⟩

end Os2024.FileSystem
