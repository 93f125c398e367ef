import Os2024.FileSystem.Links

/-! # The two tests in front of every call

A parent is taken for a directory when its cell holds the end mark, and a slot is
taken for an entry when its name bytes match. The first test lets cluster 1 and
the last cluster of every file pass and reads outside the table from 512 on; the
second one lets the all-zero name match free slots. Both results below say
exactly when a test does its work.
-/

namespace Os2024.FileSystem
open Library.PackedLayout Library.LinkedCells Library.Runs

/-- A cluster number below the size of the table that is neither the table's own cluster nor the
last cluster of a file. -/
structure Rejectable (v : Volume) (n : UInt32) : Prop where
  inRange : n.toNat < 512
  ne_fat : n ≠ fatClusterNumber
  not_last : ∀ {d i l}, v.LiveEntry d i → ¬(v.table d i).IsFolder → v.EntryChain (v.table d i) l →
    ∀ h : l ≠ [], (l.getLast h).number ≠ n

def Volume.Full (v : Volume) (p : Cell) : Prop := ∀ i, 2 ≤ i → (v.table p i).Live

/-- What `write` asks for before it writes: an open parent without that name, a free slot in it
and enough free cells. -/
structure Accepts (request : DriverRequest) (s : Storage) (p : Cell) : Prop where
  parent : request.parentClusterNumber = p.number
  opened : s.clusterMap p = fatEndOfFile
  fresh : ∀ i, ¬request.Matches (s.volume.table p i)
  slot : ∃ i, i ≠ 0 ∧ ¬(s.volume.table p i).Live
  room : (requiredSlots request.bufferSize).toNat ≤ (freeCells s.clusterMap).length

/-- What is asked of a call whose parent `p` is a directory. A read or a delete of the all-zero name
must not find a free slot. A write that is accepted must not have a size whose cluster count is 0 in
8 bits: the code then returns 0 and gives the entry an uninitialised cluster. -/
def Call.Proper (s : Storage) (p : Cell) : Call → Prop
  | .read request => request.Named ∨ s.volume.Full p ∨ ∃ i, i < 2 ∧ request.Matches (s.volume.table p i)
  | .write _ request => Accepts request s p → requiredSlots request.bufferSize ≠ 0
  | .delete request => request.Named ∨ s.volume.Full p

/-- The parent of the call is a directory and the call is proper, or the parent is no directory and
rejectable. -/
def Call.Guard (s : Storage) (call : Call) : Prop :=
  (∃ p : Cell, call.request.parentClusterNumber = p.number ∧ s.volume.Existing p ∧ call.Proper s p) ∨
    ((∀ p : Cell, call.request.parentClusterNumber = p.number → ¬s.volume.Existing p) ∧
      Rejectable s.volume call.request.parentClusterNumber)

/-- A call that keeps to the guard and returns. In guarded runs all of them return. -/
def GuardedStep (s : Storage) (call : Call) (s' : Storage) : Prop :=
  call.Guard s ∧ ∃ r, call.exec s = .ok (r, s')

/-- What holds in every state of a guarded run that started with cluster 0 as `boot`. -/
structure Guarded (boot : Cluster) (s : Storage) : Prop extends LinkSlots s where
  boot_eq : s.volume 0 = boot
  noLeak : NoLeak s

/-- The outcome that a parent which is no directory should have. -/
def Rejected (mem : Memory) (request : DriverRequest) (s : Storage) : Prop :=
  read request s = .ok (2, []) ∧ write mem request s = .ok (2, s) ∧
    delete request s = .ok (2, s)

theorem rejected_of_cell {mem : Memory} {request : DriverRequest} {s : Storage} {c : Cell}
    (hreq : request.parentClusterNumber = c.number) (hc : s.clusterMap c ≠ fatEndOfFile) :
    Rejected mem request s := by
  refine ⟨?_, ?_, ?_⟩
  · rw [read, hreq, cellAt_number]
    exact if_pos hc
  · rw [write, hreq, cellAt_number]
    exact if_pos hc
  · rw [delete, hreq, cellAt_number]
    exact if_pos hc

/-- Without leaks an end mark belongs to a directory, to cluster 1 or to the end of a file. -/
theorem endOfFile_cases {s : Storage} (hs : s.Consistent) (hleak : NoLeak s) {c : Cell}
    (hc : s.clusterMap c = fatEndOfFile) : s.volume.Existing c ∨ c = 1 ∨
      ∃ d i l, s.volume.LiveEntry d i ∧ ¬(s.volume.table d i).IsFolder ∧
        s.volume.EntryChain (s.volume.table d i) l ∧ ∃ h : l ≠ [], l.getLast h = c := by
  have hused : s.clusterMap c ≠ fatEmptyEntry := by
    rw [hc]
    decide
  rcases hleak c hused with hlt | ⟨d, i, l, he, hl, hmem⟩
  · rcases (Cell.lt_three_iff c).mp hlt with rfl | rfl | rfl
    · rw [← hs.cached, hs.wellFormed.reserved0] at hc
      exact absurd hc (by decide)
    · exact .inr (.inl rfl)
    · exact .inl .refl
  · by_cases hf : (s.volume.table d i).IsFolder
    · obtain ⟨c', -, -, -, hc', hex⟩ := hs.wellFormed.folder_chain he hf
      rw [hl.unique hc', List.mem_singleton] at hmem
      exact .inl (hmem ▸ hex)
    · have hstop : s.volume.fat c = fatEndOfFile := by rw [hs.cached, hc]
      obtain ⟨h, hlast⟩ := IsChain.getLast_of_stop Cell.number_injective
        Cell.number_ne_endOfFile hl hmem hstop
      exact .inr (.inr ⟨d, i, l, he, hf, hl, h, hlast⟩)

/-- A parent that is no directory is rejected exactly when it is rejectable. -/
theorem rejected_iff {mem : Memory} {request : DriverRequest} {s : Storage} (hs : s.Consistent)
    (hleak : NoLeak s)
    (hp : ∀ p : Cell, request.parentClusterNumber = p.number → ¬s.volume.Existing p) :
    Rejected mem request s ↔ Rejectable s.volume request.parentClusterNumber := by
  constructor
  · rintro ⟨hread, hwrite, -⟩
    have hrange : request.parentClusterNumber.toNat < 512 := by
      by_contra hout
      rw [read, cellAt_eq_error (not_lt.mp hout)] at hread
      cases hread
    obtain ⟨c, hc⟩ : ∃ c : Cell, request.parentClusterNumber = c.number :=
      ⟨⟨_, hrange⟩, cellAt_eq_ok (dif_pos hrange)⟩
    -- past the test, write never returns 2
    have hcell : s.clusterMap c ≠ fatEndOfFile := by
      rcases write_cases hc hwrite with ⟨-, hr | hr | ⟨-, hcell⟩⟩ | ⟨hr, -⟩
      · exact absurd hr (by decide)
      · exact absurd hr (by decide)
      · exact hcell
      · exact absurd hr (by decide)
    refine ⟨hrange, ?_, fun {d i l} _ _ hl hne hlast => hcell ?_⟩
    · rw [hc]
      intro h1
      obtain rfl : c = 1 := Cell.number_injective h1
      rw [← hs.cached, hs.wellFormed.reserved1] at hcell
      exact hcell rfl
    · obtain rfl : l.getLast hne = c := Cell.number_injective (hlast.trans hc)
      rw [← hs.cached]
      exact hl.last hne
  · rintro ⟨hrange, hfat, hlast⟩
    obtain ⟨c, hc⟩ : ∃ c : Cell, request.parentClusterNumber = c.number :=
      ⟨⟨_, hrange⟩, cellAt_eq_ok (dif_pos hrange)⟩
    apply rejected_of_cell hc
    intro hstop
    rcases endOfFile_cases hs hleak hstop with hex | rfl | ⟨d, i, l, he, hf, hl, hne, heq⟩
    · exact hp c hc hex
    · exact hfat hc
    · exact hlast he hf hl hne (by rw [heq, hc])

theorem clear_iff {v : Volume} (hv : v.WellFormed) {p : Cell} (hp : v.Existing p)
    (request : DriverRequest) : request.Clear v p ↔ request.Named ∨ v.Full p := by
  constructor
  · intro hclear
    by_cases hn : request.Named
    · exact .inl hn
    · refine .inr fun i hi => ?_
      by_contra hfree
      refine hfree (hclear i hi ?_)
      rw [hv.free_zero hp i hfree]
      exact not_not.mp hn
  · rintro (hn | hfull)
    · exact hn.clear hv hp
    · exact fun i hi _ => hfull i hi

/-- The outcome that a name no live entry carries should have. -/
def NotFound (request : DriverRequest) (s : Storage) : Prop :=
  read request s = .ok (2, []) ∧ delete request s = .ok (1, s)

/-- Deleting the all-zero name from a directory with a free slot follows cluster 0 and then reads
the table at the reserved value of cell 0. -/
theorem delete_free_slot {request : DriverRequest} {s : Storage} {p : Cell} (hs : s.Consistent)
    (hp : s.volume.Existing p) (hreq : request.parentClusterNumber = p.number)
    (hnone : ∀ i, (s.volume.table p i).Live → ¬request.Matches (s.volume.table p i))
    (hzero : ¬request.Named) (hfree : ¬s.volume.Full p) :
    delete request s = .error .outOfBounds := by
  cases hfind : firstMatch request (s.volume.table p) with
  | none =>
    refine absurd (fun i hi => ?_) hfree
    by_contra hdead
    refine firstMatch_eq_none.mp hfind i hi ?_
    rw [hs.wellFormed.free_zero hp i hdead]
    exact not_not.mp hzero
  | some k =>
    exact delete_free hs hp hreq hfind fun hlive =>
      hnone k hlive (firstMatch_eq_some hfind).2

/-- With no live entry of that name, the calls find nothing exactly when the name is not all zero
or no slot is free. -/
theorem notFound_iff {request : DriverRequest} {s : Storage} {p : Cell} (hs : s.Consistent)
    (hp : s.volume.Existing p) (hreq : request.parentClusterNumber = p.number)
    (hnone : ∀ i, (s.volume.table p i).Live → ¬request.Matches (s.volume.table p i)) :
    NotFound request s ↔ request.Named ∨ s.volume.Full p := by
  constructor
  · rintro ⟨-, hdelete⟩
    by_contra hneither
    rw [not_or] at hneither
    rw [delete_free_slot hs hp hreq hnone hneither.1 hneither.2] at hdelete
    cases hdelete
  · intro h
    have hclear := (clear_iff hs.wellFormed hp request).mpr h
    have hunmatched : ∀ i, ¬request.Matches (s.volume.table p i) := by
      intro i hm
      by_cases hi : 2 ≤ i
      · exact hnone i (hclear i hi hm) hm
      · have hlink : i = 0 ∨ i = 1 := by
          have hlt : i < 2 := not_le.mp hi
          omega
        rcases hlink with rfl | rfl
        · exact hnone 0 (hs.wellFormed.links hp).1 hm
        · exact hnone 1 (hs.wellFormed.links hp).2 hm
    have hcell := hs.parent_cell hp
    have hfind : (List.finRange 64).find? (fun i => request.Matches (s.volume.table p i)) = none :=
      List.find?_eq_none.mpr fun i _ hm => hunmatched i (of_decide_eq_true hm)
    constructor
    · rw [read, hreq, cellAt_number]
      dsimp only
      rw [if_neg (not_not.mpr hcell), directoryTable_number, hfind]
    · rcases delete_cases hs hp hreq hclear with ⟨hd, -⟩ | ⟨k, -, hm, -⟩
      · exact hd
      · exact absurd hm (hunmatched k)

theorem exec_of_rejected {call : Call} {s s' : Storage} {r : Int8}
    (hrej : ∀ mem, Rejected mem call.request s) (hexec : call.exec s = .ok (r, s')) : s' = s := by
  cases call with
  | read request =>
    have hout : read request s = .ok (2, []) := (hrej fun _ => 0).1
    rw [Call.exec, hout] at hexec
    exact (Prod.mk.inj (Except.ok.inj hexec)).2.symm
  | write mem request =>
    have hout : write mem request s = .ok (2, s) := (hrej mem).2.1
    exact (Prod.mk.inj (Except.ok.inj (hexec.symm.trans hout))).2
  | delete request =>
    have hout : delete request s = .ok (2, s) := (hrej fun _ => 0).2.2
    exact (Prod.mk.inj (Except.ok.inj (hexec.symm.trans hout))).2

theorem Guarded.step {boot : Cluster} {s s' : Storage} {call : Call} (hs : Guarded boot s)
    (h : GuardedStep s call s') : Guarded boot s' := by
  obtain ⟨⟨p, hreq, hp, hproper⟩ | ⟨hnodir, hrej⟩, r, hexec⟩ := h
  · have hclear : ∀ request, call = .delete request → request.Clear s.volume p := by
      rintro request rfl
      exact (clear_iff hs.wellFormed hp request).mpr hproper
    have heff := exec_effect hs.toConsistent hp hreq hclear hexec
    exact
      { toLinkSlots := hs.toLinkSlots.of_effect hp hreq heff
        boot_eq := ((heff.change hs.toConsistent).boot hs.toConsistent hp).trans hs.boot_eq
        noLeak := heff.noLeak hs.toConsistent hp hs.noLeak }
  · rw [exec_of_rejected (fun mem => (rejected_iff hs.toConsistent hs.noLeak hnodir).mpr hrej) hexec]
    exact hs

theorem guarded_of_run {s₀ s : Storage} (h : Run GuardedStep (createFat32 s₀) s) :
    Guarded ((createFat32 s₀).volume 0) s :=
  h.invariant ⟨createFat32_linkSlots s₀, rfl, (createFat32_sound s₀).noLeak⟩
    fun _ _ _ hs hstep => hs.step hstep

/-- The slot that a proper read finds is in use. -/
theorem live_of_proper {s : Storage} (hs : s.Consistent) {p : Cell} (hp : s.volume.Existing p)
    {request : DriverRequest} (h : (Call.read request).Proper s p) {i : Fin 64}
    (hfind : (List.finRange 64).find? (fun i => request.Matches (s.volume.table p i)) = some i) :
    (s.volume.table p i).Live := by
  have hsome := List.find?_some hfind
  have hm : request.Matches (s.volume.table p i) := of_decide_eq_true hsome
  have hlinks := hs.wellFormed.links hp
  have hlow : i < 2 → (s.volume.table p i).Live := by
    intro hi
    have hlink : i = 0 ∨ i = 1 := by omega
    rcases hlink with rfl | rfl
    · exact hlinks.1
    · exact hlinks.2
  by_contra hfree
  rcases h with hn | hfull | ⟨j, hj, hmj⟩
  · rw [hs.wellFormed.free_zero hp i hfree] at hm
    exact hn hm
  · exact hfree (hfull i (not_lt.mp fun hi => hfree (hlow hi)))
  · -- the search starts at slot 0
    have hle : i ≤ j := by
      by_contra hlt
      obtain ⟨-, k, hk, rfl, hall⟩ := List.find?_eq_some_iff_getElem.mp hfind
      have hjk : j.val < k := by
        rw [not_le, List.getElem_finRange] at hlt
        exact hlt
      exact absurd hmj (by simpa using hall j.val hjk)
    exact hfree (hlow (lt_of_le_of_lt hle hj))

theorem read_returns {s : Storage} (hs : LinkSlots s) {p : Cell} (hp : s.volume.Existing p)
    {request : DriverRequest} (hreq : request.parentClusterNumber = p.number)
    (h : (Call.read request).Proper s p) : ∃ r stores, read request s = .ok (r, stores) := by
  have hcell := hs.parent_cell hp
  rw [read, hreq, cellAt_number]
  dsimp only
  rw [if_neg (not_not.mpr hcell), directoryTable_number]
  cases hfind : (List.finRange 64).find? (fun i => request.Matches (s.volume.table p i)) with
  | none => exact ⟨_, _, rfl⟩
  | some i =>
    have hlive := live_of_proper hs.toConsistent hp h hfind
    dsimp only
    split_ifs with hfolder hbuf
    · exact ⟨_, _, rfl⟩
    · exact ⟨_, _, rfl⟩
    · have hslot : 2 ≤ i := by
        by_contra hlow
        have hlink : i = 0 ∨ i = 1 := by omega
        rcases hlink with rfl | rfl
        · exact hfolder (hs.folders hp).1
        · exact hfolder (hs.folders hp).2
      obtain ⟨l, hl, -⟩ := hs.wellFormed.chain ⟨hp, hslot, hlive⟩
      have hcard := hl.nodup.length_le_card
      rw [Fintype.card_fin] at hcard
      have hchain : IsChain Cell.number fatEndOfFile s.clusterMap (s.volume.table p i).cluster l := by
        rw [← hs.cached]
        exact hl
      rw [readChain_eq request.buf (lt_of_le_of_lt hcard (by decide)) hchain]
      exact ⟨_, _, rfl⟩

/-- Every call that keeps to the guard returns. -/
theorem guardedStep_of_guard {boot : Cluster} {s : Storage} {call : Call} (hs : Guarded boot s)
    (h : call.Guard s) : ∃ s', GuardedStep s call s' := by
  suffices hreturns : ∃ r s', call.exec s = .ok (r, s') by
    obtain ⟨r, s', hexec⟩ := hreturns
    exact ⟨s', h, r, hexec⟩
  rcases h with ⟨p, hreq, hp, hproper⟩ | ⟨hnodir, hrej⟩
  · cases call with
    | read request =>
      obtain ⟨r, stores, hread⟩ : ∃ r stores, read request s = .ok (r, stores) :=
        read_returns hs.toLinkSlots hp hreq hproper
      exact ⟨r, s, by rw [Call.exec, hread]⟩
    | write mem request =>
      have hout : WriteOutcome mem request s p (write mem request s) := write_outcome mem s hreq
      rw [Call.exec]
      generalize write mem request s = out at hout
      cases hout with
      | noCell hcell hfresh hslot hzero =>
        have haccepts : Accepts request s p :=
          ⟨hreq, hcell, hfresh, ⟨_, hslot.pos, hslot.free⟩, by omega⟩
        exact absurd (UInt8.toNat_inj.mp hzero) (hproper haccepts)
      | _ => exact ⟨_, _, rfl⟩
    | delete request =>
      have hclear := (clear_iff hs.wellFormed hp request).mpr hproper
      have hout : DeleteOutcome request s p (delete request s) :=
        delete_outcome hs.toConsistent hp hreq hclear
      rw [Call.exec]
      generalize delete request s = out at hout
      cases hout with
      | _ => exact ⟨_, _, rfl⟩
  · have hreject : ∀ mem request,
        (∀ p : Cell, request.parentClusterNumber = p.number → ¬s.volume.Existing p) →
        Rejectable s.volume request.parentClusterNumber → Rejected mem request s :=
      fun _ _ hreq => (rejected_iff hs.toConsistent hs.noLeak hreq).mpr
    cases call with
    | read request =>
      have hread : read request s = .ok (2, []) := (hreject (fun _ => 0) request hnodir hrej).1
      exact ⟨2, s, by rw [Call.exec, hread]⟩
    | write mem request => exact ⟨2, s, (hreject mem request hnodir hrej).2.1⟩
    | delete request => exact ⟨2, s, (hreject (fun _ => 0) request hnodir hrej).2.2⟩

/-- Along guarded runs every call that keeps to the guard returns, the boot cluster and the reserved
cells never change, and a name that no live entry of a directory carries is not found exactly when
it is not all zero or the directory has no free slot. -/
theorem guardedRun_notFound_iff (s₀ : Storage) {s : Storage}
    (hrun : Run GuardedStep (createFat32 s₀) s) :
    (∀ call : Call, call.Guard s → ∃ s', GuardedStep s call s') ∧
    (s.volume 0 = (createFat32 s₀).volume 0 ∧ s.clusterMap 0 = cluster0Value ∧
      s.clusterMap 1 = cluster1Value ∧ s.volume.fat = s.clusterMap) ∧
    ∀ (request : DriverRequest) (p : Cell), request.parentClusterNumber = p.number →
      s.volume.Existing p →
      (∀ i, (s.volume.table p i).Live → ¬request.Matches (s.volume.table p i)) →
      (NotFound request s ↔ request.Named ∨ s.volume.Full p) := by
  have hs := guarded_of_run hrun
  refine ⟨fun call h => guardedStep_of_guard hs h, ⟨hs.boot_eq, ?_, ?_, hs.cached⟩,
    fun request p hreq hp hnone => notFound_iff hs.toConsistent hp hreq hnone⟩
  · rw [← hs.cached]
    exact hs.wellFormed.reserved0
  · rw [← hs.cached]
    exact hs.wellFormed.reserved1

structure NoteWritten (s : Storage) (k : Fin 64) (c d : Cell) : Prop where
  ran : write (fun _ => 7) noteRequest (createFat32 blankStorage) = .ok (0, s)
  step : GuardedStep (createFat32 blankStorage) (.write (fun _ => 7) noteRequest) s
  entry : EntryWritten noteRequest s.volume 2 k [c, d]
  table : s.volume.table 2 = Function.update ((createFat32 blankStorage).volume.table 2) k
    (newEntry noteRequest c)
  only : ∀ p i, s.volume.LiveEntry p i → (p, i) = (2, k)

theorem exists_noteWritten : ∃ s k c d, NoteWritten s k c d := by
  have hs := createFat32_consistent blankStorage
  obtain ⟨s, hw⟩ := write_note fun _ => 7
  have hcount : (requiredSlots noteRequest.bufferSize).toNat = 2 := by
    rw [requiredSlots, if_neg (by decide), clusterCount_of_valid noteRequest_valid.size]
    decide
  have hproper : (Call.write (fun _ => 7) noteRequest).Proper (createFat32 blankStorage) 2 := by
    intro _ hzero
    rw [hzero] at hcount
    exact absurd hcount (by decide)
  have hstep : GuardedStep (createFat32 blankStorage) (.write (fun _ => 7) noteRequest) s :=
    ⟨.inl ⟨2, rfl, .refl, hproper⟩, 0, hw⟩
  obtain ⟨-, k, c, rest, w, rfl⟩ := write_done (p := 2) rfl hw
  obtain ⟨d, rfl⟩ : ∃ d, rest = [d] := List.length_eq_one_iff.mp (by
    have hlength := w.length
    rw [hcount, List.length_cons] at hlength
    omega)
  refine ⟨_, k, c, d, hw, hstep, w.entryWritten hs .refl _, writeResult_table .., fun p i he => ?_⟩
  have hagree := w.agrees hs fun _ => 7
  rw [w.volume hs .refl] at he
  rcases ((w.fits hs .refl _).liveEntry_iff (hagree.wellFormed hs.wellFormed) p i).mp he with hold | hnew
  · exact absurd ((hagree.liveEntry_iff hs.wellFormed p i).mpr hold)
      (Volume.not_liveEntry_of_fresh (createFat32_root blankStorage) _ _)
  · exact hnew

def otherRequest : DriverRequest := { noteRequest with name := ![111, 116, 104, 101, 114, 0, 0, 0] }

theorem NoteWritten.other {s : Storage} {k : Fin 64} {c d : Cell} (h : NoteWritten s k c d)
    (i : Fin 64) : ¬otherRequest.Matches (s.volume.table 2 i) := by
  rw [h.table]
  rintro ⟨hname, hext⟩
  by_cases hi : i = k
  · subst i
    rw [Function.update_self] at hname
    have hdiffers : noteRequest.name ≠ otherRequest.name := by decide
    exact hdiffers hname
  · rw [Function.update_of_ne hi, createFat32_ext] at hext
    exact absurd hext (by decide)

/-- Once the note is written, another name is still not found. -/
theorem guardedRun_notFound_note : ∃ s,
    write (fun _ => 7) noteRequest (createFat32 blankStorage) = .ok (0, s) ∧
      NotFound otherRequest s := by
  obtain ⟨s, k, c, d, h⟩ := exists_noteWritten
  obtain ⟨-, -, hfind⟩ := guardedRun_notFound_iff blankStorage ((Run.refl _).tail h.step)
  exact ⟨s, h.ran, (hfind otherRequest 2 rfl .refl fun i _ => h.other i).mpr (.inl (by decide))⟩

/-- The name and extension that the shell sends when no argument is typed. -/
def unnamedRequest : DriverRequest := ⟨0x1000, fun _ => 0, fun _ => 0, 2, 2048⟩

/-- No live entry of the formatted root has an empty name, yet deleting it faults. -/
theorem delete_unnamed_faults :
    (createFat32 blankStorage).volume.Existing 2 ∧
    (∀ i, ((createFat32 blankStorage).volume.table 2 i).Live →
      ¬unnamedRequest.Matches ((createFat32 blankStorage).volume.table 2 i)) ∧
    delete unnamedRequest (createFat32 blankStorage) = .error .outOfBounds := by
  have hroot := createFat32_root blankStorage
  have hnone : ∀ i, ((createFat32 blankStorage).volume.table 2 i).Live →
      ¬unnamedRequest.Matches ((createFat32 blankStorage).volume.table 2 i) := by
    intro i hlive hm
    by_cases hi : 2 ≤ i
    · exact hroot.not_live hi hlive
    · have hlink : i = 0 ∨ i = 1 := by
        have hlt : i < 2 := not_le.mp hi
        omega
      rcases hlink with rfl | rfl
      · exact absurd ((createFat32_rootName blankStorage).symm.trans hm.1) (by decide)
      · exact absurd ((createFat32_parentName blankStorage).symm.trans hm.1) (by decide)
  exact ⟨.refl, hnone, delete_free_slot (createFat32_consistent blankStorage) .refl rfl hnone
    (by decide) fun hfull => hroot.not_live (i := 2) le_rfl (hfull 2 le_rfl)⟩

/-- Along guarded runs every call that keeps to the guard returns, and a parent that is no directory
is rejected by every call exactly when it is in the table, not cluster 1 and not the last cluster of
a file. -/
theorem guardedRun_rejected_iff (s₀ : Storage) {s : Storage}
    (hrun : Run GuardedStep (createFat32 s₀) s) :
    (∀ call : Call, call.Guard s → ∃ s', GuardedStep s call s') ∧
    ∀ (mem : Memory) (request : DriverRequest),
      (∀ p : Cell, request.parentClusterNumber = p.number → ¬s.volume.Existing p) →
      (Rejected mem request s ↔ Rejectable s.volume request.parentClusterNumber) := by
  have hs := guarded_of_run hrun
  exact ⟨fun call h => guardedStep_of_guard hs h,
    fun mem request hp => rejected_iff hs.toConsistent hs.noLeak hp⟩

theorem formatted_not_existing {p n : Cell} (hn : n ≠ 2) (h : n.number = p.number) :
    ¬(createFat32 blankStorage).volume.Existing p := by
  intro hp
  rw [Volume.existing_of_fresh (createFat32_root blankStorage) hp] at h
  exact hn (Cell.number_injective h)

theorem guardedRun_rejected_note : ∃ s k c d,
    write (fun _ => 7) noteRequest (createFat32 blankStorage) = .ok (0, s) ∧
      EntryWritten noteRequest s.volume 2 k [c, d] ∧
      Rejected (fun _ => 0) { otherRequest with parentClusterNumber := c.number } s := by
  obtain ⟨s, k, c, d, h⟩ := exists_noteWritten
  have hrun := (Run.refl _).tail h.step
  have hwell := (guarded_of_run hrun).wellFormed
  have hfile : ¬(s.volume.table 2 k).IsFolder := fun hf => absurd (h.entry.kind.mp hf) (by decide)
  obtain ⟨-, hreject⟩ := guardedRun_rejected_iff blankStorage hrun
  refine ⟨s, k, c, d, h.ran, h.entry, (hreject _ _ fun p hp hex => ?_).mpr ⟨?_, fun h1 => ?_, ?_⟩⟩
  · -- a cluster of a file is no directory
    obtain rfl : c = p := Cell.number_injective hp
    exact hwell.file_not_existing h.entry.entry hfile h.entry.chain List.mem_cons_self hex
  · rw [Cell.number_toNat]
    exact c.isLt
  · obtain rfl : c = 1 := Cell.number_injective h1
    exact absurd (hwell.owned_ge ⟨2, k, _, h.entry.entry, h.entry.chain, List.mem_cons_self⟩)
      (by decide)
  · intro p i l he _ hl hne hlast
    obtain ⟨rfl, rfl⟩ := Prod.mk.inj (h.only p i he)
    obtain rfl := hl.unique h.entry.chain
    have hcd : c ≠ d := fun heq => by
      have hnodup := h.entry.chain.nodup
      rw [heq] at hnodup
      simp at hnodup
    exact hcd (Cell.number_injective hlast).symm

/-- On a formatted disk a read with parent 600 indexes outside the table, and no write with the
table's own cluster 1 as parent is rejected. -/
theorem parent_test_fails :
    (∀ p : Cell, (600 : UInt32) = p.number → ¬(createFat32 blankStorage).volume.Existing p) ∧
    read { noteRequest with parentClusterNumber := 600 } (createFat32 blankStorage) =
      .error .outOfBounds ∧
    ¬(createFat32 blankStorage).volume.Existing 1 ∧
    ∀ mem, write mem { noteRequest with parentClusterNumber := 1 } (createFat32 blankStorage) ≠
      .ok (2, createFat32 blankStorage) := by
  refine ⟨fun p hp => ?_, ?_, formatted_not_existing (n := 1) (by decide) rfl, fun mem hw => ?_⟩
  · have hlt := p.isLt
    have hval := congrArg UInt32.toNat hp
    rw [Cell.number_toNat] at hval
    have h600 : (600 : UInt32).toNat = 600 := rfl
    omega
  · rw [read, cellAt_eq_error (by decide)]
  · rcases write_cases (p := 1) rfl hw with ⟨-, hr | hr | ⟨-, hcell⟩⟩ | ⟨hr, -⟩
    · exact absurd hr (by decide)
    · exact absurd hr (by decide)
    · exact hcell rfl
    · exact absurd hr (by decide)

end Os2024.FileSystem
