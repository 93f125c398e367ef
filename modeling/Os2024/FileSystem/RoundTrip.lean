import Os2024.FileSystem.Invariant

/-! # A written file can be read back

The bytes of a buffer pass through the clusters of a chain. A file that a write
has created stays in its slot with its chain and its contents until the very call
that deletes it, so a later read returns what was written.
-/

namespace Os2024.FileSystem
open Library.PackedLayout Library.LinkedCells Library.Runs

/-- Slot `i` of `p` holds the entry that `request` has written, with its chain in the cells of `l`
and the bytes `data`. -/
structure Stored (v : Volume) (p : Cell) (request : DriverRequest) (data : ℕ → UInt8)
    (i : Fin 64) (l : List Cell) : Prop where
  entry : v.LiveEntry p i
  named : request.Matches (v.table p i)
  kind : (v.table p i).IsFolder ↔ request.bufferSize = 0
  size : (v.table p i).filesize = request.bufferSize
  chain : v.EntryChain (v.table p i) l
  bytes : ∀ j < request.bufferSize.toNat, v.contents l j = data j

def bufferBytes (mem : Memory) (request : DriverRequest) (j : ℕ) : UInt8 :=
  mem (request.buf + UInt32.ofNat j)

/-- The clusters of a new chain hold the buffer. -/
theorem writeFile_contents (mem : Memory) {l : List Cell} (hl : l.Nodup) (h1 : (1 : Cell) ∉ l)
    (buf : UInt32) {s : Storage} (hs : s.volume.fat = s.clusterMap) {j : ℕ}
    (hj : j < 2048 * l.length) :
    (writeFile mem l buf s).volume.contents l j = mem (buf + UInt32.ofNat j) := by
  have hindex : j / 2048 < l.length := Nat.div_lt_of_lt_mul hj
  have hcluster := writeFile_data mem hl h1 buf hs (j / 2048) hindex
  rw [Volume.contents, List.getElem?_eq_getElem hindex]
  dsimp only
  rw [hcluster, Memory.load, add_assoc, ← UInt32.ofNat_add, Nat.div_add_mod]

/-- A successful write stores the entry of its request with the bytes of the buffer. -/
theorem Written.stored {request : DriverRequest} {s : Storage} {p : Cell} {k : Fin 64} {c : Cell}
    {rest : List Cell} (w : Written request s p k c rest) (hs : s.Consistent)
    (hp : s.volume.Existing p) (hsize : request.bufferSize.toNat ≤ maxFileSize) (mem : Memory) :
    Stored (writeResult mem request s p k c rest).volume p request (bufferBytes mem request) k
      (c :: rest) := by
  have hagree := w.agrees hs mem
  have hwell := hagree.wellFormed hs.wellFormed
  have hfits := w.fits hs hp mem
  obtain ⟨hentry, hnamed, hkind, hfilesize, hchain⟩ := w.entryWritten hs hp mem
  refine ⟨hentry, hnamed, hkind, hfilesize, hchain, fun j hj => ?_⟩
  have hfile : request.bufferSize ≠ 0 := by
    intro h0
    rw [h0] at hj
    exact absurd hj (Nat.not_lt_zero j)
  have hlen : (c :: rest).length = (request.bufferSize.toNat + 2047) / 2048 := by
    rw [w.length, requiredSlots, if_neg hfile, clusterCount_of_valid hsize]
  have hkeep : ∀ d ∈ c :: rest, ((writeData mem request c rest s).volume.setEntry p k
      (newEntry request c)) d = (writeData mem request c rest s).volume d := by
    intro d hd
    apply Volume.setEntry_of_ne
    rintro rfl
    exact hfits.not_mem hwell hfits.existing hd
  rw [w.volume hs hp mem, Volume.contents_congr hkeep, writeData, if_neg hfile]
  exact writeFile_contents mem w.nodup (w.one_not_mem hs) request.buf hs.cached (by omega)

theorem Stored.step {s : Storage} {v : Volume} {p d : Cell} {call : Call} {request : DriverRequest}
    {data : ℕ → UInt8} {i : Fin 64} {l : List Cell} (h : Stored s.volume d request data i l)
    (hreq : request.parentClusterNumber = d.number) (hs : s.Consistent)
    (hp : s.volume.Existing p) (hcall : call.request.parentClusterNumber = p.number)
    (hdel : ¬call.Deletes request) (hchange : Change p call s v) : Stored v d request data i l := by
  have hkept := hchange.kept hs hp h.entry (by
    rintro r rfl rfl hm
    exact hdel ⟨r, rfl, hcall.trans hreq.symm, hm.1.symm.trans h.named.1,
      hm.2.symm.trans h.named.2⟩)
  refine ⟨hkept.entry, ?_, ?_, ?_, hkept.chain l h.chain, fun j hj => ?_⟩
  · rw [hkept.same]
    exact h.named
  · rw [hkept.same]
    exact h.kind
  · rw [hkept.same]
    exact h.size
  · have hfile : ¬(s.volume.table d i).IsFolder := by
      intro hf
      rw [h.kind.mp hf] at hj
      exact absurd hj (Nat.not_lt_zero j)
    rw [hkept.contents hs.wellFormed hp h.entry hfile h.chain]
    exact h.bytes j hj

/-- Reading a stored file stores its clusters one behind the other. -/
theorem Stored.read_eq {s : Storage} {p : Cell} {request request' : DriverRequest}
    {data : ℕ → UInt8} {i : Fin 64} {l : List Cell} (h : Stored s.volume p request data i l)
    (hs : s.Consistent) (hreq : request'.parentClusterNumber = p.number) (hn : request.Named)
    (hfile : request.bufferSize ≠ 0)
    (hname : request'.name = request.name) (hext : request'.ext = request.ext)
    (hsize : request.bufferSize.toNat ≤ maxFileSize)
    (hbuf : 2048 * ((request.bufferSize.toNat + 2047) / 2048) ≤ request'.bufferSize.toNat) :
    FileSystem.read request' s = .ok (0, chainStores s.volume request'.buf l) ∧
      l.length = (request.bufferSize.toNat + 2047) / 2048 := by
  have hm : request'.Matches (s.volume.table p i) :=
    ⟨h.named.1.trans hname.symm, h.named.2.trans hext.symm⟩
  have hn' : request'.Named := by
    rw [DriverRequest.Named, DriverRequest.Matches, hname, hext]
    exact hn
  have hfile' : ¬(s.volume.table p i).IsFolder := fun hf => hfile (h.kind.mp hf)
  have hcount := clusterCount_of_valid hsize
  have hclusters : (clusterCount (s.volume.table p i).filesize).toNat ≤
      (request'.bufferSize / clusterSize).toNat := by
    have hunit : clusterSize.toNat = 2048 := rfl
    rw [h.size, hcount, UInt32.toNat_div, hunit]
    omega
  have hlen : l.length = (request.bufferSize.toNat + 2047) / 2048 := by
    obtain ⟨m, hm, -, -, hlen⟩ := hs.wellFormed.chain h.entry
    rw [Volume.chainLength, if_neg hfile', h.size, hcount] at hlen
    rw [h.chain.unique hm, hlen]
  exact ⟨read_file hs hreq hn' h.entry hm hfile' h.chain hclusters, hlen⟩

theorem Stored.read {s : Storage} {p : Cell} {request request' : DriverRequest}
    {data : ℕ → UInt8} {i : Fin 64} {l : List Cell} (h : Stored s.volume p request data i l)
    (hs : s.Consistent) (hreq : request'.parentClusterNumber = p.number) (hn : request.Named)
    (hfile : request.bufferSize ≠ 0)
    (hname : request'.name = request.name) (hext : request'.ext = request.ext)
    (hsize : request.bufferSize.toNat ≤ maxFileSize)
    (hbuf : 2048 * ((request.bufferSize.toNat + 2047) / 2048) ≤ request'.bufferSize.toNat) :
    ∃ stores, FileSystem.read request' s = .ok (0, stores) ∧
      ∀ mem j, j < request.bufferSize.toNat →
        applyStores mem stores (request'.buf + UInt32.ofNat j) = data j := by
  obtain ⟨hread, hlen⟩ := h.read_eq hs hreq hn hfile hname hext hsize hbuf
  refine ⟨_, hread, fun mem j hj => ?_⟩
  rw [maxFileSize] at hsize
  rw [applyStores_chainStores s.volume mem request'.buf (by omega) (by omega)]
  exact h.bytes j hj

def KeepingStep (request : DriverRequest) (s : Storage) (call : Call) (s' : Storage) : Prop :=
  ValidStep s call s' ∧ ¬call.Deletes request

theorem stored_of_run {s s' : Storage} {p : Cell} {request : DriverRequest} {data : ℕ → UInt8}
    {i : Fin 64} {l : List Cell} (hs : Sound s) (hreq : request.parentClusterNumber = p.number)
    (h : Stored s.volume p request data i l) (hrun : Run (KeepingStep request) s s') :
    Sound s' ∧ Stored s'.volume p request data i l := by
  apply hrun.invariant (I := fun s => Sound s ∧ Stored s.volume p request data i l) ⟨hs, h⟩
  rintro t call t' ⟨ht, hstored⟩ ⟨hstep, hdel⟩
  obtain ⟨q, hcall, hq, heff⟩ := hstep.effect ht.toConsistent
  exact ⟨ht.step hstep,
    hstored.step hreq ht.toConsistent hq hcall hdel (heff.change ht.toConsistent)⟩

/-- What a successful write of a file has stored, a later read returns, whatever valid calls
happen in between, unless one of them deletes this file. -/
theorem read_after_write (s₀ : Storage) {s s₁ s₂ : Storage} {mem : Memory}
    {request request' : DriverRequest} (hrun : Run ValidStep (createFat32 s₀) s)
    (hvalid : request.Valid s.volume) (hfile : request.bufferSize ≠ 0)
    (hwrite : write mem request s = .ok (0, s₁)) (hrun' : Run (KeepingStep request) s₁ s₂)
    (hparent : request'.parentClusterNumber = request.parentClusterNumber)
    (hname : request'.name = request.name) (hext : request'.ext = request.ext)
    (hbuf : 2048 * ((request.bufferSize.toNat + 2047) / 2048) ≤ request'.bufferSize.toNat) :
    ∃ stores, read request' s₂ = .ok (0, stores) ∧
      ∀ mem' j, j < request.bufferSize.toNat →
        applyStores mem' stores (request'.buf + UInt32.ofNat j) = mem (request.buf + UInt32.ofNat j) := by
  have hsound := sound_of_run hrun
  have hstep : ValidStep s (.write mem request) s₁ := ⟨by rintro _ ⟨⟩, hvalid, 0, hwrite⟩
  obtain ⟨p, hreq, hp⟩ := hvalid.parent
  obtain ⟨-, k, c, rest, hw, rfl⟩ := write_done hreq hwrite
  have hstored := hw.stored hsound.toConsistent hp hvalid.size mem
  obtain ⟨hsound₂, hstored₂⟩ := stored_of_run (hsound.step hstep) hreq hstored hrun'
  exact hstored₂.read hsound₂.toConsistent (hparent.trans hreq) hvalid.named hfile hname hext
    hvalid.size hbuf

def noteStorage : Storage :=
  match write (fun _ => 7) noteRequest (createFat32 blankStorage) with
  | .ok (_, s) => s
  | .error _ => blankStorage

theorem write_noteStorage :
    write (fun _ => 7) noteRequest (createFat32 blankStorage) = .ok (0, noteStorage) := by
  obtain ⟨s, hw, -⟩ := writeStep_note (fun _ => 7)
  rw [noteStorage, hw]

theorem noteStorage_sound : Sound noteStorage := by
  obtain ⟨s, hw, hstep⟩ := writeStep_note (fun _ => 7)
  rw [noteStorage, hw]
  exact sound_of_run ((Run.refl _).tail hstep)

def HoldsNote (s : Storage) : Prop :=
  ∃ c c' : Cluster, ∀ buf bufferSize : UInt32, 4096 ≤ bufferSize.toNat →
    read { noteRequest with buf := buf, bufferSize := bufferSize } s =
      .ok (0, [(buf, c), (buf + clusterSize, c')])

theorem holdsNote_of_run {s : Storage} (hrun : Run (KeepingStep noteRequest) noteStorage s) :
    HoldsNote s := by
  have hconsistent := (createFat32_sound blankStorage).toConsistent
  obtain ⟨-, k, c, rest, hwritten, hresult⟩ := write_done (p := 2) rfl write_noteStorage
  have hstored := hwritten.stored hconsistent .refl noteRequest_valid.size (fun _ => 7)
  rw [← hresult] at hstored
  obtain ⟨hsound, hlater⟩ := stored_of_run noteStorage_sound (p := 2) rfl hstored hrun
  have hread := fun buf bufferSize => @Stored.read_eq s 2 noteRequest
    { noteRequest with buf := buf, bufferSize := bufferSize } _ k _ hlater hsound.toConsistent rfl
    noteRequest_valid.named (by decide) rfl rfl noteRequest_valid.size
  have hlen : (c :: rest).length = 2 := (hread 0 4096 (by decide)).2
  obtain ⟨c', rfl⟩ := List.length_eq_one_iff.mp (Nat.succ.inj hlen)
  exact ⟨s.volume c, s.volume c', fun buf bufferSize hsize => (hread buf bufferSize hsize).1⟩

theorem noteStorage_holdsNote : HoldsNote noteStorage := holdsNote_of_run (Run.refl _)

def folderRequest : DriverRequest :=
  { noteRequest with ext := fun _ => 0, bufferSize := 0 }

theorem keepingStep_folder {s : Storage} (hs : Sound s) : ∃ r s',
    write (fun _ => 0) folderRequest s = .ok (r, s') ∧
      KeepingStep noteRequest s (.write (fun _ => 0) folderRequest) s' := by
  have hfolder : folderRequest.Valid s.volume := ⟨⟨2, rfl, .refl⟩, by decide, by decide⟩
  obtain ⟨⟨r, s', hw⟩, -⟩ := valid_returns hs.toConsistent (fun _ => 0) hfolder
  exact ⟨r, s', hw, ⟨by rintro _ ⟨⟩, hfolder, r, hw⟩, by rintro ⟨_, ⟨⟩, _⟩⟩

/-- The note is read back after a call that makes a folder next to it. -/
theorem read_after_write_note : ∃ s₁ r s₂ stores,
    write (fun a => a.toUInt8) noteRequest (createFat32 blankStorage) = .ok (0, s₁) ∧
    write (fun _ => 0) folderRequest s₁ = .ok (r, s₂) ∧
    read { noteRequest with buf := 0x8000, bufferSize := 4096 } s₂ = .ok (0, stores) ∧
    ∀ mem' j, j < 3000 →
      applyStores mem' stores (0x8000 + UInt32.ofNat j) = (0x1000 + UInt32.ofNat j).toUInt8 := by
  obtain ⟨s₁, hw, hstep⟩ := writeStep_note (fun a => a.toUInt8)
  obtain ⟨r, s₂, hw₂, hstep₂⟩ := keepingStep_folder (sound_of_run ((Run.refl _).tail hstep))
  obtain ⟨stores, hread, hbytes⟩ := @read_after_write blankStorage _ _ _ _ noteRequest
    { noteRequest with buf := 0x8000, bufferSize := 4096 } (Run.refl _) noteRequest_valid (by decide)
    hw ((Run.refl _).tail hstep₂) rfl rfl rfl (by decide)
  exact ⟨s₁, r, s₂, stores, hw, hw₂, hread, hbytes⟩

end Os2024.FileSystem
