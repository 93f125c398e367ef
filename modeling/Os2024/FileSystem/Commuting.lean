import Os2024.FileSystem.Tree

/-! # Calls that commute

A call that returns 0 puts one node under one path of the tree, or takes it away,
and leaves every other path alone. Two such calls with different names or parents
therefore lead to the same tree in either order, whatever slots and clusters they
get.
-/

namespace Os2024.FileSystem
open Library.PackedLayout Library.LinkedCells Library.Runs Library.MeteredMaps

namespace Effect
variable {p : Cell} {call : Call} {s s' : Storage} {path parentPath : List Key} {node : Node}

theorem lists_old (h : Effect p call s s') (hs : s.Consistent) (hp : s.volume.Existing p)
    {d c : Cell} {i : Fin 64} (hc : s.volume.Existing c) (hl : s'.volume.Lists d i c) :
    s.volume.Lists d i c ∧ s'.volume.table d i = s.volume.table d i := by
  rcases (h.change hs).liveEntry_cases hs hp hl.toLiveEntry with
    ⟨he, heq⟩ | ⟨mem, request, b, rest, rfl, rfl, w, hv⟩
  · exact ⟨⟨he, heq ▸ hl.folder, heq ▸ hl.cluster⟩, heq⟩
  · -- the new folder lies in a cell that was free
    have hcluster := hl.cluster
    rw [hv] at hcluster
    obtain rfl := Cell.number_injective
      (hcluster.symm.trans (w.entryWritten hs hp mem).chain.1)
    refine absurd ?_ (w.not_used hs List.mem_cons_self)
    exact (hs.wellFormed.existing_cases hc).imp (by rintro rfl; decide) And.right

theorem keeps_path (h : Effect p call s s') (hs : s.Consistent) (hp : s.volume.Existing p)
    {d : Cell} (hd : DirectoryPath s.volume path d) (hd' : s'.volume.Existing d) :
    DirectoryPath s'.volume path d := by
  induction hd with
  | root => exact .root
  | @step path b c i hb hl ih =>
    rcases hd'.listed with rfl | ⟨b', j, hl'⟩
    · exact absurd rfl (hl.child_ne_root hs.wellFormed)
    · obtain ⟨hold, heq⟩ := h.lists_old hs hp hl.existing_child hl'
      obtain ⟨rfl, rfl⟩ := hl.unique hs.wellFormed hold
      rw [← heq]
      exact (ih hl'.existing).step hl'

theorem path_before (h : Effect p call s s') (hs : s.Consistent) (hp : s.volume.Existing p)
    {d : Cell} (hd' : DirectoryPath s'.volume path d) (hd : s.volume.Existing d) :
    DirectoryPath s.volume path d := by
  induction hd' with
  | root => exact .root
  | step _ hl' ih =>
    obtain ⟨hl, heq⟩ := h.lists_old hs hp hd hl'
    rw [heq]
    exact (ih hl.existing).step hl

/-- A directory whose cell still holds the end mark has not been deleted. -/
theorem existing_of_cell (h : Effect p call s s') (hs : s.Consistent) (hp : s.volume.Existing p)
    {d : Cell} (hd : s.volume.Existing d) (hcell : s'.clusterMap d = fatEndOfFile) :
    s'.volume.Existing d := by
  refine h.keeps_existing hs hp hd fun {k l} w hl => ?_
  obtain ⟨m, hm, hne, -⟩ := hs.wellFormed.chain w.removable.entry
  have hmem : d ∈ l := w.chain.unique hm ▸ hm.head_mem hne hl.cluster
  rw [w.map, clear_of_mem hmem] at hcell
  exact absurd hcell (by decide)

theorem seenAs_of_kept (hs : Visible s) (hs' : Visible s') (hp : s.volume.Existing p) {d : Cell}
    {i : Fin 64} (he : s.volume.LiveEntry d i) (hkept : s.volume.Kept s'.volume p d i)
    (hn : SeenAs s d i node) : SeenAs s' d i node := by
  cases hn with
  | folder hf =>
    have hseen := SeenAs.folder (s := s') (d := d) (i := i) (by rwa [hkept.same])
    rwa [hkept.same] at hseen
  | file hfile bytes hread =>
    obtain ⟨l, hl, -⟩ := hs.wellFormed.chain he
    have hl' := hkept.chain l hl
    rw [hkept.same] at hl'
    refine hs'.seenAs_file hkept.entry hkept.same hfile hl' fun j => ?_
    rw [(hs.readsAs_iff he rfl hfile hl bytes).mp hread j,
      hkept.contents hs.wellFormed hp he hfile hl]

/-- Under every path but the one of its request a call changes nothing. -/
theorem shows_iff_of_ne (h : Effect p call s s') (hs : Visible s) (hs' : Visible s')
    (hpath : DirectoryPath s.volume parentPath p) (hne : path ≠ parentPath ++ [call.request.key]) :
    Shows s' path node ↔ Shows s path node := by
  have hp := hpath.existing
  have hkeep : ∀ {node}, Shows s path node → Shows s' path node := by
    intro node hshow
    cases hshow with
    | @entry path d i _ hd he hn =>
      have hkept : s.volume.Kept s'.volume p d i := by
        refine (h.change hs.toConsistent).kept hs.toConsistent hp he ?_
        rintro request rfl rfl hm
        rw [hd.unique hs.wellFormed hpath, DriverRequest.matches_iff.mp hm] at hne
        exact hne rfl
      rw [← hkept.same]
      exact .entry (h.keeps_path hs.toConsistent hp hd hkept.entry.existing) hkept.entry
        (seenAs_of_kept hs hs' hp he hkept hn)
  refine ⟨fun hshow => ?_, hkeep⟩
  have hold : ∃ node', Shows s path node' := by
    cases hshow with
    | @entry path d i _ hd he hn =>
      rcases (h.change hs.toConsistent).liveEntry_cases hs.toConsistent hp he with
        ⟨he₀, heq⟩ | ⟨mem, request, c, rest, rfl, rfl, w, hv⟩
      · obtain ⟨node', hn'⟩ := hs.exists_seenAs he₀
        rw [heq]
        exact ⟨node', .entry (h.path_before hs.toConsistent hp hd he₀.existing) he₀ hn'⟩
      · have hm := (w.entryWritten hs.toConsistent hp mem).named
        rw [← hv] at hm
        rw [(h.path_before hs.toConsistent hp hd hp).unique hs.wellFormed hpath,
          DriverRequest.matches_iff.mp hm] at hne
        exact absurd rfl hne
  obtain ⟨node', hshow'⟩ := hold
  rw [hs'.shows_unique hshow (hkeep hshow')]
  exact hshow'

end Effect

theorem Visible.shows_below {s : Storage} (hs : Visible s) {p : Cell} {path : List Key} {key : Key}
    {node : Node} (hpath : DirectoryPath s.volume path p) :
    Shows s (path ++ [key]) node ↔
      ∃ i, s.volume.LiveEntry p i ∧ (s.volume.table p i).key = key ∧ SeenAs s p i node := by
  constructor
  · intro h
    generalize hfull : path ++ [key] = full at h
    cases h with
    | @entry path' d i _ hd he hn =>
      obtain ⟨rfl, hkey⟩ := List.append_inj' hfull rfl
      obtain rfl := hd.cell_unique hs.wellFormed hpath
      exact ⟨i, he, (List.singleton_inj.mp hkey).symm, hn⟩
  · rintro ⟨i, he, rfl, hn⟩
    exact .entry hpath he hn

def DriverRequest.node (mem : Memory) (request : DriverRequest) : Node :=
  if request.bufferSize = 0 then .folder request.bufferSize
  else .file request.bufferSize fun j => bufferBytes mem request j

def Call.node : Call → Option Node
  | write mem request => some (request.node mem)
  | _ => none

namespace Effect
variable {p : Cell} {call : Call} {s s' : Storage} {path : List Key}

/-- A call changes the tree under the path of its request only. -/
theorem tree (h : Effect p call s s') (hs : Visible s) (hs' : Visible s')
    (hpath : DirectoryPath s.volume path p) {new : Option Node}
    (hnew : s'.tree.entries (path ++ [call.request.key]) = new)
    (hfree : s'.tree.free = s.tree.free +
      room Node.clusters (s.tree.entries (path ++ [call.request.key])) - room Node.clusters new) :
    s'.tree = s.tree.put Node.clusters (path ++ [call.request.key]) new := by
  ext1
  · funext full
    by_cases hfull : full = path ++ [call.request.key]
    · rw [hfull, hnew, MeteredMap.put_self]
    · rw [s.tree.put_of_ne hfull]
      ext node
      rw [hs'.tree_eq_some, hs.tree_eq_some]
      exact h.shows_iff_of_ne hs hs' hpath hfull
  · exact hfree

end Effect

theorem Written.seenAs {request : DriverRequest} {s : Storage} {p : Cell} {k : Fin 64} {c : Cell}
    {rest : List Cell} (w : Written request s p k c rest) (hs : Visible s)
    (hp : s.volume.Existing p) (hsize : request.bufferSize.toNat ≤ maxFileSize) {mem : Memory}
    (hs' : Visible (writeResult mem request s p k c rest)) :
    SeenAs (writeResult mem request s p k c rest) p k (request.node mem) := by
  have hnew := w.entryWritten hs.toConsistent hp mem
  have hentry := writeResult_entry mem request s p k c rest
  by_cases h0 : request.bufferSize = 0
  · have hseen := SeenAs.folder (hnew.kind.mpr h0)
    rw [hnew.size] at hseen
    rw [DriverRequest.node, if_pos h0]
    exact hseen
  · have hchain := hnew.chain
    have hstored := w.stored hs.toConsistent hp hsize mem
    rw [hentry] at hchain
    rw [DriverRequest.node, if_neg h0]
    refine hs'.seenAs_file hnew.entry hentry ?_ hchain fun j => (hstored.bytes j j.isLt).symm
    exact fun hf => h0 ((newEntry_isFolder request c).mp hf)

theorem Written.tree {request : DriverRequest} {s : Storage} {p : Cell} {k : Fin 64} {c : Cell}
    {rest : List Cell} (w : Written request s p k c rest) (hs : Visible s) {path : List Key}
    (hpath : DirectoryPath s.volume path p) (hsize : request.bufferSize.toNat ≤ maxFileSize)
    {mem : Memory} (hs' : Visible (writeResult mem request s p k c rest)) :
    (writeResult mem request s p k c rest).tree =
      s.tree.put Node.clusters (path ++ [request.key]) (some (request.node mem)) := by
  have hp := hpath.existing
  have heff : Effect p (.write mem request) s (writeResult mem request s p k c rest) := .linked w
  have hnew := w.entryWritten hs.toConsistent hp mem
  have hseen := w.seenAs hs hp hsize hs'
  have hpath' := heff.keeps_path hs.toConsistent hp hpath hnew.entry.existing
  have hshows : Shows (writeResult mem request s p k c rest) (path ++ [request.key])
      (request.node mem) :=
    (hs'.shows_below hpath').mpr ⟨k, hnew.entry, DriverRequest.matches_iff.mp hnew.named, hseen⟩
  -- the name was new
  have hnone : s.tree.entries (path ++ [request.key]) = none := by
    refine Option.eq_none_iff_forall_ne_some.mpr fun node hnode => ?_
    obtain ⟨i, -, hkey, -⟩ := (hs.shows_below hpath).mp (hs.tree_eq_some.mp hnode)
    exact w.fresh i (DriverRequest.matches_iff.mpr hkey)
  refine heff.tree hs hs' hpath (hs'.tree_eq_some.mpr hshows) ?_
  have hcount := w.free_count hs.toConsistent mem
  have hclusters := hs'.clusters_of_seenAs hnew.entry hnew.chain hseen
  have hroom : s.tree.entries (path ++ [(Call.write mem request).request.key]) = none := hnone
  rw [hroom, room_none, room_some, hclusters, Storage.tree, Storage.tree]
  dsimp only
  omega

theorem Deleted.tree {request : DriverRequest} {s s' : Storage} {p : Cell} {k : Fin 64}
    {l : List Cell} (hm : request.Matches (s.volume.table p k)) (w : Deleted s s' p k l)
    (hs : Visible s) {path : List Key} (hpath : DirectoryPath s.volume path p) (hs' : Visible s') :
    s'.tree = s.tree.put Node.clusters (path ++ [request.key]) none := by
  have hp := hpath.existing
  have heff : Effect p (.delete request) s s' := .unlinked hm w
  have hp' := heff.keeps_parent hs.toConsistent hp
  have hpath' := heff.keeps_path hs.toConsistent hp hpath hp'
  have htable := w.table hs.toConsistent hp'
  obtain ⟨node, hseen⟩ := hs.exists_seenAs w.removable.entry
  have hsome : s.tree.entries (path ++ [request.key]) = some node :=
    hs.tree_eq_some.mpr ((hs.shows_below hpath).mpr
      ⟨k, w.removable.entry, DriverRequest.matches_iff.mp hm, hseen⟩)
  -- the name is gone
  have hnone : s'.tree.entries (path ++ [request.key]) = none := by
    refine Option.eq_none_iff_forall_ne_some.mpr fun node hnode => ?_
    obtain ⟨i, he, hkey, -⟩ := (hs'.shows_below hpath').mp (hs'.tree_eq_some.mp hnode)
    by_cases hik : i = k
    · subst i
      have hlive := he.live
      rw [htable, Function.update_self] at hlive
      exact absurd hlive (by decide)
    · have hlive := he.live
      rw [htable, Function.update_of_ne hik] at hlive hkey
      refine hik (DirectoryPath.slot_unique hs.wellFormed ⟨hp, he.slot, hlive⟩ w.removable.entry ?_)
      rw [hkey, DriverRequest.matches_iff.mp hm]
  refine heff.tree hs hs' hpath hnone ?_
  have hcount := w.free_count hs.toConsistent
  have hclusters := hs.clusters_of_seenAs w.removable.entry w.chain hseen
  have hroom : s.tree.entries (path ++ [(Call.delete request).request.key]) = some node := hsome
  rw [hroom, room_none, room_some, hclusters, Storage.tree, Storage.tree]
  dsimp only
  omega

/-- A write or delete that returns 0 has found the end mark in its parent's cell. -/
theorem Call.parent_cell {call : Call} {s s' : Storage} {p : Cell}
    (hreq : call.request.parentClusterNumber = p.number) (hread : ∀ request, call ≠ .read request)
    (h : call.exec s = .ok (0, s')) : s.clusterMap p = fatEndOfFile := by
  cases call with
  | read request => exact absurd rfl (hread request)
  | write mem request =>
    rw [exec] at h
    exact (write_done hreq h).1
  | delete request =>
    by_contra hcell
    rw [exec, FileSystem.delete, show request.parentClusterNumber = p.number from hreq,
      cellAt_number] at h
    dsimp only at h
    rw [if_pos hcell] at h
    exact absurd (Prod.mk.inj (Except.ok.inj h)).1 (by decide)

/-- A valid call that returns 0 puts its node under its path. -/
theorem tree_of_zero {s s' : Storage} (hs : Visible s) {call : Call} {p : Cell} {path : List Key}
    (hreq : call.request.parentClusterNumber = p.number) (hpath : DirectoryPath s.volume path p)
    (hstep : ValidStep s call s') (h : call.exec s = .ok (0, s')) :
    s'.tree = s.tree.put Node.clusters (path ++ [call.request.key]) call.node := by
  have hs' := hs.step hstep
  obtain ⟨hread, hv, -⟩ := hstep
  cases call with
  | read request => exact absurd rfl (hread request)
  | write mem request =>
    rw [Call.exec] at h
    obtain ⟨-, k, c, rest, w, rfl⟩ := write_done hreq h
    exact w.tree hs hpath hv.size hs'
  | delete request =>
    have hout : DeleteOutcome request s p (delete request s) :=
      delete_outcome hs.toConsistent hpath.existing hreq
        (hv.named.clear hs.wellFormed hpath.existing)
    rw [Call.exec] at h
    rw [h] at hout
    generalize hr : (0 : Int8) = r at hout
    cases hout with
    | notFound => exact absurd hr (by decide)
    | inUse => exact absurd hr (by decide)
    | done hm w => exact w.tree hm hs hpath hs'

/-- After a call, a second one that was valid before it and returns 0 puts its node under the same
path. -/
theorem tree_of_second {s sa sab : Storage} (hs : Visible s) {a b : Call} {p : Cell}
    {path : List Key} (ha : ValidStep s a sa) (hreq : b.request.parentClusterNumber = p.number)
    (hpath : DirectoryPath s.volume path p) (hread : ∀ request, b ≠ .read request)
    (hv : b.request.Valid s.volume) (h : b.exec sa = .ok (0, sab)) :
    Visible sab ∧ sab.tree = sa.tree.put Node.clusters (path ++ [b.request.key]) b.node := by
  obtain ⟨q, -, hq, heff⟩ := ha.effect hs.toConsistent
  have hcell := Call.parent_cell hreq hread h
  have hp' := heff.existing_of_cell hs.toConsistent hq hpath.existing hcell
  have hstep : ValidStep sa b sab := ⟨hread, ⟨⟨p, hreq, hp'⟩, hv.named, hv.size⟩, 0, h⟩
  have hsa := hs.step ha
  exact ⟨hsa.step hstep,
    tree_of_zero hsa hreq (heff.keeps_path hs.toConsistent hq hpath hp') hstep h⟩

/-- In every state of a valid run, two valid calls on different entries that return 0 in either
order lead to storages that look the same. -/
theorem calls_commute (s₀ : Storage) {s sa sab sb sba : Storage}
    (hrun : Run ValidStep (createFat32 s₀) s) {a b : Call}
    (hreada : ∀ request, a ≠ .read request) (hreadb : ∀ request, b ≠ .read request)
    (hva : a.request.Valid s.volume) (hvb : b.request.Valid s.volume)
    (hne : (a.request.parentClusterNumber, a.request.key) ≠
      (b.request.parentClusterNumber, b.request.key))
    (ha : a.exec s = .ok (0, sa)) (hab : b.exec sa = .ok (0, sab))
    (hb : b.exec s = .ok (0, sb)) (hba : a.exec sb = .ok (0, sba)) : Alike sab sba := by
  have hs := visible_of_run hrun
  obtain ⟨p, hp, hexp⟩ := hva.parent
  obtain ⟨q, hq, hexq⟩ := hvb.parent
  obtain ⟨path, hpath⟩ := exists_directoryPath hexp
  obtain ⟨path', hpath'⟩ := exists_directoryPath hexq
  have hstepa : ValidStep s a sa := ⟨hreada, hva, 0, ha⟩
  have hstepb : ValidStep s b sb := ⟨hreadb, hvb, 0, hb⟩
  obtain ⟨hsab, htree⟩ := tree_of_second hs hstepa hq hpath' hreadb hvb hab
  obtain ⟨hsba, htree'⟩ := tree_of_second hs hstepb hp hpath hreada hva hba
  have hfull : path ++ [a.request.key] ≠ path' ++ [b.request.key] := by
    intro heq
    obtain ⟨rfl, hkey⟩ := List.append_inj' heq rfl
    obtain rfl := hpath.cell_unique hs.wellFormed hpath'
    exact hne (Prod.ext (hp.trans hq.symm) (List.singleton_inj.mp hkey))
  apply hsab.alike hsba
  rw [htree, htree', tree_of_zero hs hp hpath hstepa ha, tree_of_zero hs hq hpath' hstepb hb]
  exact s.tree.put_comm hfull _ _

theorem write_formatted_second {s : Storage} {request request' : DriverRequest} {k : Fin 64}
    {c : Cell} {rest : List Cell} (w : Written request (createFat32 s) 2 k c rest)
    (hreq : request'.parentClusterNumber = (2 : Cell).number)
    (hfresh : ∀ i, ¬request'.Matches ((createFat32 s).volume.table 2 i))
    (hkey : request.key ≠ request'.key)
    (hpos : 0 < (requiredSlots request'.bufferSize).toNat)
    (hroom : (requiredSlots request.bufferSize).toNat +
      (requiredSlots request'.bufferSize).toNat ≤ 509)
    (mem mem' : Memory) :
    ∃ s', write mem' request' (writeResult mem request (createFat32 s) 2 k c rest) =
      .ok (0, s') := by
  have hs := createFat32_consistent s
  have hs₁ := w.consistent hs .refl mem
  have htable := writeResult_table mem request (createFat32 s) 2 k c rest
  obtain ⟨i, hi, hik⟩ := exists_other_slot k
  have hi0 : i ≠ 0 := by
    rintro rfl
    exact absurd hi (by decide)
  refine write_succeeds mem' hreq (hs₁.parent_cell .refl) ?_ hi0 ?_ hpos ?_
  · intro j hm
    rw [htable] at hm
    by_cases hj : j = k
    · rw [hj, Function.update_self] at hm
      exact hkey (DriverRequest.matches_iff.mp hm)
    · rw [Function.update_of_ne hj] at hm
      exact hfresh j hm
  · rw [htable, Function.update_of_ne hik]
    exact (createFat32_root s).not_live hi
  · have hcount := w.free_count hs mem
    have hformatted : (freeCells (createFat32 s).clusterMap).length = 509 := formattedMap_free
    rw [w.length, hformatted] at hcount
    omega

theorem calls_commute_note : ∃ sa sab sb sba,
    write (fun _ => 7) noteRequest (createFat32 blankStorage) = .ok (0, sa) ∧
    write (fun _ => 0) folderRequest sa = .ok (0, sab) ∧
    write (fun _ => 0) folderRequest (createFat32 blankStorage) = .ok (0, sb) ∧
    write (fun _ => 7) noteRequest sb = .ok (0, sba) ∧ Alike sab sba := by
  have hfolder : ∀ i, ¬folderRequest.Matches ((createFat32 blankStorage).volume.table 2 i) :=
    createFat32_fresh blankStorage (by decide) (by decide)
  have hnote : (requiredSlots noteRequest.bufferSize).toNat = 2 :=
    requiredSlots_of_file (by decide) (by decide)
  have hone : (requiredSlots folderRequest.bufferSize).toNat = 1 :=
    congrArg UInt8.toNat requiredSlots_folder
  obtain ⟨sa, ha⟩ := write_note fun _ => 7
  obtain ⟨sb, hb⟩ := write_formatted blankStorage (fun _ => 0) rfl hfolder (.inl rfl)
  obtain ⟨-, k, c, rest, w, rfl⟩ := write_done (p := 2) rfl ha
  obtain ⟨-, k', c', rest', w', rfl⟩ := write_done (p := 2) rfl hb
  obtain ⟨sab, hab⟩ := write_formatted_second w rfl hfolder (by decide) (by omega) (by omega)
    (fun _ => 7) fun _ => 0
  obtain ⟨sba, hba⟩ := write_formatted_second w' rfl noteRequest_fresh (by decide) (by omega)
    (by omega) (fun _ => 0) fun _ => 7
  exact ⟨_, sab, _, sba, ha, hab, hb, hba,
    calls_commute blankStorage (Run.refl _) (a := .write (fun _ => 7) noteRequest)
      (b := .write (fun _ => 0) folderRequest) (by rintro _ ⟨⟩) (by rintro _ ⟨⟩) noteRequest_valid
      ⟨⟨2, rfl, .refl⟩, by decide, by decide⟩ (by decide) ha hab hb hba⟩

end Os2024.FileSystem
