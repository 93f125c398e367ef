import Os2024.FileSystem.Invariant
import Os2024.Library.RootedTree

/-! # The link slots of the directories

Slot 0 of a directory describes the directory itself and slot 1 its parent. Both
are written once, when the folder is made, and calls never touch them again. The
root gets its slots when the disk is formatted, where slot 0 is left without a
cluster number.
-/

namespace Os2024.FileSystem
open Library.PackedLayout Library.Runs Library.RootedTree

namespace Volume

/-- Slot `i` of directory `d` is the live entry of the directory stored in cluster `c`. -/
structure Lists (v : Volume) (d : Cell) (i : Fin 64) (c : Cell) : Prop extends v.LiveEntry d i where
  folder : (v.table d i).IsFolder
  cluster : (v.table d i).cluster = c.number

namespace Lists
variable {v : Volume} {d d' c : Cell} {i i' : Fin 64}

theorem child (h : v.Lists d i c) : v.Child d c := ⟨i, h.slot, h.live, h.folder, h.cluster⟩

theorem existing_child (h : v.Lists d i c) : v.Existing c := h.existing.tail h.child

theorem unique (h : v.Lists d i c) (hv : v.WellFormed) (h' : v.Lists d' i' c) :
    d = d' ∧ i = i' := by
  by_contra hne
  obtain ⟨l, hl, hnil, -⟩ := hv.chain h.toLiveEntry
  obtain ⟨l', hl', hnil', -⟩ := hv.chain h'.toLiveEntry
  refine hv.disjoint h.toLiveEntry h'.toLiveEntry hl hl' (fun heq => hne ?_)
    (hl.head_mem hnil h.cluster) (hl'.head_mem hnil' h'.cluster)
  exact Prod.mk.inj heq

theorem child_ge (h : v.Lists d i c) (hv : v.WellFormed) : 3 ≤ c := by
  obtain ⟨b, hge, hb, -⟩ := hv.folder_chain h.toLiveEntry h.folder
  rwa [Cell.number_injective (h.cluster.symm.trans hb)]

theorem child_ne_root (h : v.Lists d i c) (hv : v.WellFormed) : c ≠ 2 := by
  rintro rfl
  exact absurd (h.child_ge hv) (by decide)

end Lists

/-- Every existing directory but the root is listed. -/
theorem Existing.listed {v : Volume} {c : Cell} (h : v.Existing c) :
    c = 2 ∨ ∃ d i, v.Lists d i c := by
  cases h with
  | refl => exact .inl rfl
  | tail hb hbc =>
    obtain ⟨i, hi, hlive, hfolder, hc⟩ := hbc
    exact .inr ⟨_, i, ⟨hb, hi, hlive⟩, hfolder, hc⟩

theorem WellFormed.rooted {v : Volume} (hv : v.WellFormed) : Rooted v.Child 2 where
  source := by
    rintro a ha ⟨i, hi, hlive, hfolder, hc⟩
    exact Lists.child_ne_root ⟨⟨ha, hi, hlive⟩, hfolder, hc⟩ hv rfl
  unique := by
    rintro a b c ha hb ⟨i, hi, hlive, hfolder, hc⟩ ⟨j, hj, hlive', hfolder', hc'⟩
    exact (Lists.unique ⟨⟨ha, hi, hlive⟩, hfolder, hc⟩ hv ⟨⟨hb, hj, hlive'⟩, hfolder', hc'⟩).1

end Volume

def linkEntry (name : Bytes 8) (cluster : UInt32) : DirectoryEntry :=
  { DirectoryEntry.zero with
    name := name
    attr := attrSubdirectory
    userAttribute := uattrNotEmpty
    clusterLow := cluster.toUInt16
    clusterHigh := (cluster >>> 16).toUInt16 }

section LinkEntry
variable (name : Bytes 8) (cluster : UInt32)

@[simp] theorem linkEntry_name : (linkEntry name cluster).name = name := rfl
@[simp] theorem linkEntry_ext : (linkEntry name cluster).ext = fun _ => 0 := rfl
@[simp] theorem linkEntry_cluster : (linkEntry name cluster).cluster = cluster :=
  cluster_halves _ _ rfl rfl
theorem linkEntry_live : (linkEntry name cluster).Live := rfl
theorem linkEntry_isFolder : (linkEntry name cluster).IsFolder := rfl

end LinkEntry

theorem initDirectoryTable_one (name : Bytes 8) (parent : UInt32) (disk : Disk) :
    initDirectoryTable (fun _ => .zero) name parent disk 1 =
      linkEntry (tableLayout.symm (readClusters parent disk) 0).name parent := by
  rw [initDirectoryTable, Function.update_self]
  rfl

theorem writeFolder_links (request : DriverRequest) {c : Cell} (h1 : c ≠ 1) (s : Storage) :
    (writeFolder request c s).volume.table c 0 = linkEntry (copyName request.name) c.number ∧
    (writeFolder request c s).volume.table c 1 =
      linkEntry (s.directoryTable request.parentClusterNumber 0).name
        request.parentClusterNumber := by
  rw [Volume.table, writeFolder, volume_writeFat_of_ne _ h1, volume_setCell, volume_writeClusters,
    Function.update_self, Equiv.symm_apply_apply]
  constructor
  · rw [Function.update_self, initDirectoryTable_zero]
    rfl
  · rw [Function.update_of_ne (by decide), initDirectoryTable_one]
    rfl

theorem copyName_rootName : copyName rootName = rootName := by
  funext i
  fin_cases i <;> rfl

/-- The root's slot 0 is left with cluster number 0. -/
theorem createFat32_links (s : Storage) :
    (createFat32 s).volume.table 2 0 = linkEntry rootName 0 ∧
    (createFat32 s).volume.table 2 1 = linkEntry rootName rootClusterNumber := by
  have hname := createFat32_parentName s
  rw [createFat32, Volume.table, show rootClusterNumber = (2 : Cell).number from rfl,
    volume_writeClusters, Function.update_self, Equiv.symm_apply_apply] at hname ⊢
  rw [initDirectoryTable_one] at hname ⊢
  rw [linkEntry_name] at hname
  refine ⟨?_, by rw [hname]⟩
  rw [initDirectoryTable_zero, copyName_rootName]
  rfl

theorem createFat32_fresh (s : Storage) {request : DriverRequest} (hn : request.Named)
    (hroot : request.name ≠ rootName) (i : Fin 64) :
    ¬request.Matches ((createFat32 s).volume.table 2 i) := by
  intro hm
  by_cases hi : 2 ≤ i
  · rw [(createFat32_root s).2.2 i hi] at hm
    exact hn hm
  · have hi' : i = 0 ∨ i = 1 := by omega
    refine hroot (hm.1.symm.trans ?_)
    rcases hi' with rfl | rfl
    · rw [(createFat32_links s).1, linkEntry_name]
    · rw [(createFat32_links s).2, linkEntry_name]

theorem Written.lists {request : DriverRequest} {s : Storage} {p : Cell} {k : Fin 64} {c : Cell}
    {rest : List Cell} (w : Written request s p k c rest) (hs : s.Consistent)
    (hp : s.volume.Existing p) (h0 : request.bufferSize = 0) (mem : Memory) :
    (writeResult mem request s p k c rest).volume.Lists p k c ∧
      (writeResult mem request s p k c rest).volume.table p k = newEntry request c := by
  have hnew := w.entryWritten hs hp mem
  refine ⟨⟨hnew.entry, hnew.kind.mpr h0, ?_⟩, writeResult_entry _ _ _ _ _ _ _⟩
  rw [writeResult_entry, newEntry_cluster]

/-- The table of that folder has its two link slots only, and the parent's table one entry more. -/
theorem Written.newFolder {request : DriverRequest} {s : Storage} {p : Cell} {k : Fin 64} {c : Cell}
    {rest : List Cell} (w : Written request s p k c rest) (hs : s.Consistent)
    (hp : s.volume.Existing p) (h0 : request.bufferSize = 0) (mem : Memory) :
    Volume.FreshTable ((writeResult mem request s p k c rest).volume.table c) ∧
      ∀ j, j ≠ k → (writeResult mem request s p k c rest).volume.table p j = s.volume.table p j := by
  have hfits := w.fits hs hp mem
  have hwell := (w.agrees hs mem).wellFormed hs.wellFormed
  have hcp : c ≠ p := by
    rintro rfl
    exact hfits.not_mem hwell hfits.existing List.mem_cons_self
  rw [w.volume hs hp mem]
  constructor
  · rw [Volume.table_setEntry, if_neg hcp]
    exact hfits.folder ((newEntry_isFolder request c).mpr h0) c List.mem_cons_self
  · intro j hj
    rw [Volume.table_setEntry_of_ne (fun h => hj (Prod.mk.inj h).2),
      (w.agrees hs mem).table_eq hs.wellFormed hp]

namespace Effect
variable {p : Cell} {call : Call} {s s' : Storage}

/-- Only the folder that a call deletes stops being a directory. -/
theorem keeps_existing (h : Effect p call s s') (hs : s.Consistent) (hp : s.volume.Existing p)
    {d : Cell} (hd : s.volume.Existing d)
    (hkeep : ∀ {k l}, Deleted s s' p k l → ¬s.volume.Lists p k d) : s'.volume.Existing d := by
  cases h with
  | unchanged => exact hd
  | @linked mem _ _ _ _ _ w =>
    have hagree := w.agrees hs mem
    rw [w.volume hs hp mem]
    exact (w.fits hs hp mem).existing_mono ((hagree.existing_iff hs.wellFormed d).mp hd)
  | unlinked _ w =>
    refine ((w.agrees hs).existing_iff (w.removable.wellFormed hs.wellFormed) d).mp ?_
    refine (w.removable.existing_iff hs.wellFormed d).mpr ⟨hd, ?_⟩
    rintro ⟨hfolder, hc⟩
    exact hkeep w ⟨w.removable.entry, hfolder, hc⟩

theorem keeps_parent (h : Effect p call s s') (hs : s.Consistent) (hp : s.volume.Existing p) :
    s'.volume.Existing p :=
  h.keeps_existing hs hp hp fun _ hl => hs.wellFormed.rooted.ne_of_edge hp hl.child rfl

theorem link_slots (h : Effect p call s s') (hs : s.Consistent) (hp : s.volume.Existing p)
    {d : Cell} (hd : s.volume.Existing d) (hd' : s'.volume.Existing d) {j : Fin 64} (hj : j < 2) :
    s'.volume.table d j = s.volume.table d j := by
  obtain ⟨k, hk, htables⟩ := (h.change hs).tables hs hp
  refine htables d j hd hd' fun heq => ?_
  obtain ⟨-, rfl⟩ := Prod.mk.inj heq
  exact absurd hk (not_le.mpr hj)

/-- A listing after the call was there before, or it is the one of the folder just made. -/
theorem lists_cases (h : Effect p call s s') (hs : s.Consistent) (hp : s.volume.Existing p)
    (hreq : call.request.parentClusterNumber = p.number) {d c : Cell} {i : Fin 64}
    (hl : s'.volume.Lists d i c) :
    (s.volume.Lists d i c ∧ s'.volume.table d i = s.volume.table d i) ∨
    ∃ mem request, call = .write mem request ∧ request.bufferSize = 0 ∧ d = p ∧
      s'.volume.table p i = newEntry request c ∧
      s'.volume.table c 0 = linkEntry (copyName request.name) c.number ∧
      s'.volume.table c 1 = linkEntry (s.volume.table p 0).name p.number := by
  have hold : s.volume.LiveEntry d i → s'.volume.table d i = s.volume.table d i →
      s.volume.Lists d i c ∧ s'.volume.table d i = s.volume.table d i := by
    intro he heq
    exact ⟨⟨he, heq ▸ hl.folder, heq ▸ hl.cluster⟩, heq⟩
  cases h with
  | unchanged => exact .inl ⟨hl, rfl⟩
  | @linked mem request _ k b rest w =>
    have hchange : Change p (.write mem request) s (writeResult mem request s p k b rest).volume :=
      .linked w
    rcases hchange.liveEntry_cases hs hp hl.toLiveEntry with
      ⟨he, heq⟩ | ⟨mem', request', b', rest', hcall, hdp, w', hv⟩
    · exact .inl (hold he heq)
    · subst d
      obtain ⟨rfl, rfl⟩ := Call.write.inj hcall
      have hentry : (writeResult mem request s p k b rest).volume.table p i =
          newEntry request b' := by
        rw [hv, writeResult_entry]
      have hc : b' = c := by
        have hcluster := hl.cluster
        rw [hentry, newEntry_cluster] at hcluster
        exact Cell.number_injective hcluster
      subst hc
      have h0 : request.bufferSize = 0 := by
        have hfolder := hl.folder
        rw [hentry] at hfolder
        exact (newEntry_isFolder request b').mp hfolder
      have hbp : b' ≠ p := by
        rintro rfl
        exact (w'.fits hs hp mem).not_mem ((w'.agrees hs mem).wellFormed hs.wellFormed)
          (w'.fits hs hp mem).existing List.mem_cons_self
      have hb1 : b' ≠ 1 := by
        rintro rfl
        exact w'.one_not_mem hs List.mem_cons_self
      have hparent : s.directoryTable request.parentClusterNumber = s.volume.table p := by
        rw [show request.parentClusterNumber = p.number from hreq, directoryTable_number]
      obtain ⟨hself, hup⟩ := writeFolder_links request hb1 s
      rw [hparent, show request.parentClusterNumber = p.number from hreq] at hup
      refine .inr ⟨mem, request, rfl, h0, rfl, hentry, ?_, ?_⟩ <;>
        rw [hv, w'.volume hs hp mem, Volume.table_setEntry, if_neg hbp, writeData, if_pos h0]
      · exact hself
      · exact hup
  | @unlinked request _ _ k l hm w =>
    rcases ((Effect.unlinked hm w).change hs).liveEntry_cases hs hp hl.toLiveEntry with
      ⟨he, heq⟩ | ⟨_, _, _, _, hcall, -⟩
    · exact .inl (hold he heq)
    · cases hcall

end Effect

structure Volume.LinksOf (v : Volume) (d c : Cell) (entry : DirectoryEntry) : Prop where
  selfFolder : (v.table c 0).IsFolder
  selfCluster : (v.table c 0).cluster = c.number
  selfName : (v.table c 0).name = copyName entry.name
  selfExt : (v.table c 0).ext = fun _ => 0
  parentFolder : (v.table c 1).IsFolder
  parentCluster : (v.table c 1).cluster = d.number

theorem Volume.LinksOf.congr {v v' : Volume} {d c : Cell} {e : DirectoryEntry}
    (h : v.LinksOf d c e) (h0 : v'.table c 0 = v.table c 0) (h1 : v'.table c 1 = v.table c 1) :
    v'.LinksOf d c e where
  selfFolder := by rw [h0]; exact h.selfFolder
  selfCluster := by rw [h0]; exact h.selfCluster
  selfName := by rw [h0]; exact h.selfName
  selfExt := by rw [h0]; exact h.selfExt
  parentFolder := by rw [h1]; exact h.parentFolder
  parentCluster := by rw [h1]; exact h.parentCluster

theorem Volume.linksOf_new {v : Volume} {d c : Cell} {e : DirectoryEntry} {name : Bytes 8}
    (h0 : v.table c 0 = linkEntry (copyName e.name) c.number)
    (h1 : v.table c 1 = linkEntry name d.number) : v.LinksOf d c e where
  selfFolder := by rw [h0]; exact linkEntry_isFolder _ _
  selfCluster := by rw [h0, linkEntry_cluster]
  selfName := by rw [h0, linkEntry_name]
  selfExt := by rw [h0, linkEntry_ext]
  parentFolder := by rw [h1]; exact linkEntry_isFolder _ _
  parentCluster := by rw [h1, linkEntry_cluster]

/-- Every directory but the root links to itself and to the directory that lists it. -/
def Volume.Linked (v : Volume) : Prop :=
  ∀ {d i c}, v.Lists d i c → v.LinksOf d c (v.table d i)

def Volume.ParentsNamed (v : Volume) : Prop :=
  ∀ {d i c}, v.Lists d i c → (v.table c 1).name = (v.table d 0).name

namespace Effect
variable {p : Cell} {call : Call} {s s' : Storage}

theorem keeps_linked (h : Effect p call s s') (hs : s.Consistent) (hp : s.volume.Existing p)
    (hreq : call.request.parentClusterNumber = p.number) (hlinked : s.volume.Linked) :
    s'.volume.Linked := by
  intro d i c hl
  rcases h.lists_cases hs hp hreq hl with ⟨hold, heq⟩ | ⟨mem, request, -, -, hdp, heq, h0, h1⟩
  · have hkeep {j : Fin 64} (hj : j < 2) : s'.volume.table c j = s.volume.table c j :=
      h.link_slots hs hp hold.existing_child hl.existing_child hj
    rw [heq]
    exact (hlinked hold).congr (hkeep (by decide)) (hkeep (by decide))
  · subst d
    rw [heq]
    exact Volume.linksOf_new h0 h1

theorem keeps_parentsNamed (h : Effect p call s s') (hs : s.Consistent) (hp : s.volume.Existing p)
    (hreq : call.request.parentClusterNumber = p.number) (hnamed : s.volume.ParentsNamed) :
    s'.volume.ParentsNamed := by
  intro d i c hl
  rcases h.lists_cases hs hp hreq hl with ⟨hold, -⟩ | ⟨mem, request, -, -, hdp, -, -, h1⟩
  · rw [h.link_slots hs hp hold.existing_child hl.existing_child (by decide),
      h.link_slots hs hp hold.existing hl.existing (by decide), hnamed hold]
  · subst d
    rw [h1, linkEntry_name, h.link_slots hs hp hp hl.existing (by decide)]

end Effect

structure LinkSlots (s : Storage) : Prop extends s.Consistent where
  linked : s.volume.Linked
  named : s.volume.ParentsNamed
  rootSelf : s.volume.table 2 0 = linkEntry rootName 0
  rootParent : s.volume.table 2 1 = linkEntry rootName rootClusterNumber

theorem createFat32_linkSlots (s : Storage) : LinkSlots (createFat32 s) where
  toConsistent := createFat32_consistent s
  linked h := absurd h.toLiveEntry (Volume.not_liveEntry_of_fresh (createFat32_root s) _ _)
  named h := absurd h.toLiveEntry (Volume.not_liveEntry_of_fresh (createFat32_root s) _ _)
  rootSelf := (createFat32_links s).1
  rootParent := (createFat32_links s).2

theorem LinkSlots.of_effect {s s' : Storage} {call : Call} {p : Cell} (hs : LinkSlots s)
    (hp : s.volume.Existing p) (hreq : call.request.parentClusterNumber = p.number)
    (heff : Effect p call s s') : LinkSlots s' where
  toConsistent := heff.consistent hs.toConsistent hp
  linked := heff.keeps_linked hs.toConsistent hp hreq hs.linked
  named := heff.keeps_parentsNamed hs.toConsistent hp hreq hs.named
  rootSelf := (heff.link_slots hs.toConsistent hp .refl .refl (by decide)).trans hs.rootSelf
  rootParent := (heff.link_slots hs.toConsistent hp .refl .refl (by decide)).trans hs.rootParent

theorem LinkSlots.step {s s' : Storage} {call : Call} (hs : LinkSlots s)
    (h : ValidStep s call s') : LinkSlots s' := by
  obtain ⟨p, hreq, hp, heff⟩ := h.effect hs.toConsistent
  exact hs.of_effect hp hreq heff

theorem linkSlots_of_run {s₀ s : Storage} (h : Run ValidStep (createFat32 s₀) s) : LinkSlots s :=
  h.invariant (createFat32_linkSlots s₀) fun _ _ _ hs hstep => hs.step hstep

/-- Both link slots are taken for folders. -/
theorem LinkSlots.folders {s : Storage} (hs : LinkSlots s) {p : Cell} (hp : s.volume.Existing p) :
    (s.volume.table p 0).IsFolder ∧ (s.volume.table p 1).IsFolder := by
  rcases hp.listed with rfl | ⟨d, i, hl⟩
  · rw [hs.rootSelf, hs.rootParent]
    exact ⟨linkEntry_isFolder _ _, linkEntry_isFolder _ _⟩
  · exact ⟨(hs.linked hl).selfFolder, (hs.linked hl).parentFolder⟩

end Os2024.FileSystem
