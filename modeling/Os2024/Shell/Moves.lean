import Os2024.FileSystem.Moving
import Os2024.Shell.Session

/-! # mv

`mv` writes whole tables that it has read before. With the shell in step with the
disk, and outside the cases in which it writes over its own changes, it leaves the
disk unchanged, or renames one entry, or moves one.
-/

namespace Os2024.Shell
open Library.PackedLayout Library.CallTrees Library.RootedTree Relation
open FileSystem FileSystem.Volume

/-- A folder with a free slot and without an entry of this name. -/
structure Takes (t : DirectoryTable) (name : StringN) : Prop where
  free : ∃ k, 2 ≤ k ∧ ¬(t k).Live
  fresh : ∀ j, ¬Names name (t j)

/-- The commands `mv src dest` in the directory of `cluster` that cannot go wrong. A folder gets no
name that one of its own entries has. What is moved is no link slot, and it goes to a folder other
than itself and the current directory that can take it in. -/
def MoveGuard (s : Storage) (cluster : UInt32) (src dest : StringN) : Prop :=
  let t := s.directoryTable cluster
  ∀ i, entryAt t src = some i →
    match entryAt t dest with
    | none => 2 ≤ i → (t i).IsFolder →
        ∀ k, 2 ≤ k → ¬Names dest (s.directoryTable (t i).cluster k)
    | some j => (t j).IsFolder → 2 ≤ i ∧ i ≠ j ∧ (t j).cluster ≠ cluster ∧
        Takes (s.directoryTable (t j).cluster) src

section Writes
variable {sh : Globals} {s : System} {p : Cell} {src : StringN}

theorem run_readDirectoryCall (request : DriverRequest) (s : System) :
    run (readDirectoryCall request) s = .ok (readDirectory request s.storage, s) := rfl

theorem run_writeTable (t : DirectoryTable) (n : UInt32) (s : System) : run (writeTable t n) s =
    .ok ((), ⟨s.storage.writeClusters n (tableLayout t), s.output⟩) := rfl

theorem run_printDone (text : String) (name : List UInt8) (s : System) :
    ∃ output, run (printDone text name) s = .ok ((), ⟨s.storage, output⟩) := ⟨_, rfl⟩

def renameStorage (s : Storage) (p : Cell) (i : Fin 64) (dest : StringN)
    (srcTable : Option DirectoryTable) : Storage :=
  let t := s.volume.table p
  let s := s.writeClusters p.number
    (tableLayout (Function.update t i (renameEntry (t i) dest)))
  match srcTable with
  | none => s
  | some c => s.writeClusters (c 0).cluster
      (tableLayout (Function.update c 0 (renameEntry (c 0) dest)))

theorem run_mvRename (hcluster : sh.currentDirCluster = p.number)
    (htable : sh.currentDir = s.storage.volume.table p) {i : Fin 64}
    (hfind : findEntry src.buf (s.storage.volume.table p) = some i)
    (dest : StringN) (srcTable : Option DirectoryTable) : ∃ output, run (mvRename src dest srcTable sh) s =
      .ok ({ sh with currentDir := (renameStorage s.storage p i dest srcTable).volume.table p },
        ⟨renameStorage s.storage p i dest srcTable, output⟩) := by
  rw [mvRename, htable, hfind]
  dsimp only
  rw [run_bind_ok (run_writeTable _ _ _), hcluster]
  cases srcTable with
  | none =>
    obtain ⟨output, hdone⟩ := run_printDone "mv: File/folder successfully renamed to " dest.chars
      ⟨renameStorage s.storage p i dest none, s.output⟩
    refine ⟨output, ?_⟩
    refine (run_bind_ok run_pure).trans ((run_bind_ok hdone).trans ?_)
    exact run_refresh rfl
  | some c =>
    obtain ⟨output, hdone⟩ := run_printDone "mv: File/folder successfully renamed to " dest.chars
      ⟨renameStorage s.storage p i dest (some c), s.output⟩
    refine ⟨output, ?_⟩
    refine (run_bind_ok (run_writeTable _ _ _)).trans ((run_bind_ok hdone).trans ?_)
    exact run_refresh rfl

def moveStorage (s : Storage) (p : Cell) (i : Fin 64) (destTable : DirectoryTable)
    (srcTable : Option DirectoryTable) : Storage :=
  let t := s.volume.table p
  let s := s.writeClusters p.number (tableLayout (Function.update t i .zero))
  let d := putEntry (t i) destTable
  let s := s.writeClusters (d 0).cluster (tableLayout d)
  match srcTable with
  | none => s
  | some c => s.writeClusters (c 0).cluster (tableLayout (reparent c (d 0)))

theorem run_mvMove (hcluster : sh.currentDirCluster = p.number)
    (htable : sh.currentDir = s.storage.volume.table p) {i : Fin 64}
    (hfind : findEntry src.buf (s.storage.volume.table p) = some i)
    (dest : StringN) (srcTable : Option DirectoryTable) (destTable : DirectoryTable) :
    ∃ output, run (mvMove src dest srcTable destTable sh) s =
      .ok ({ sh with currentDir := (moveStorage s.storage p i destTable srcTable).volume.table p },
        ⟨moveStorage s.storage p i destTable srcTable, output⟩) := by
  rw [mvMove, takeEntry, htable, hfind]
  dsimp only
  rw [run_bind_ok (run_writeTable _ _ _), run_bind_ok (run_writeTable _ _ _), hcluster]
  cases srcTable with
  | none =>
    obtain ⟨output, hdone⟩ := run_printDone "mv: File/folder successfully moved to " dest.chars
      ⟨moveStorage s.storage p i destTable none, s.output⟩
    refine ⟨output, ?_⟩
    refine (run_bind_ok run_pure).trans ((run_bind_ok hdone).trans ?_)
    exact run_refresh rfl
  | some c =>
    obtain ⟨output, hdone⟩ := run_printDone "mv: File/folder successfully moved to " dest.chars
      ⟨moveStorage s.storage p i destTable (some c), s.output⟩
    refine ⟨output, ?_⟩
    refine (run_bind_ok (run_writeTable _ _ _)).trans ((run_bind_ok hdone).trans ?_)
    exact run_refresh rfl

end Writes

section Meaning
variable {s s' : Storage} {p : Cell} {i : Fin 64} {dest : StringN}

theorem clusterMap_renameStorage (s : Storage) (p : Cell) (i : Fin 64) (dest : StringN)
    (srcTable : Option DirectoryTable) :
    (renameStorage s p i dest srcTable).clusterMap = s.clusterMap := by cases srcTable <;> rfl

theorem clusterMap_moveStorage (s : Storage) (p : Cell) (i : Fin 64) (destTable : DirectoryTable)
    (srcTable : Option DirectoryTable) :
    (moveStorage s p i destTable srcTable).clusterMap = s.clusterMap := by cases srcTable <;> rfl

theorem consistent_of_rearranged {place : Cell × Fin 64 ≃ Cell × Fin 64}
    (r : s.volume.Rearranged s'.volume place) (hs : s.Consistent)
    (hmap : s'.clusterMap = s.clusterMap) : s'.Consistent where
  wellFormed := r.wellFormed hs.wellFormed
  cached := by rw [r.fat, hs.cached, hmap]

theorem Image.of_renamed (h : Image s) (hw : Word dest)
    (r : s.volume.Renamed s'.volume p i (padName dest.chars))
    (hmap : s'.clusterMap = s.clusterMap) : Image s' where
  toConsistent := consistent_of_rearranged (r.rearranged h.wellFormed) h.toConsistent hmap
  linked := r.keeps_linked h.wellFormed hw.tidy.padded h.linked
  tidy := by
    intro d j he
    have hold := ((r.rearranged h.wellFormed).live (d, j)).mp he
    by_cases hdj : (d, j) = (p, i)
    · obtain ⟨rfl, rfl⟩ := Prod.mk.inj hdj
      rw [r.named]
      exact ⟨hw.tidy.padded, hw.tidy.nonempty, (h.tidy hold).ext⟩
    · have hj : j ≠ 0 := by
        rintro rfl
        exact absurd he.slot (by decide)
      rw [r.tables hold.existing hdj fun h0 => absurd h0 hj]
      exact h.tidy hold
  rootLinks := h.rootLinks.congr (r.root_links h.wellFormed (by decide))
    (r.root_links h.wellFormed (by decide))

theorem Image.of_moved (h : Image s) {d : Cell} {k : Fin 64}
    (m : s.volume.Moved s'.volume p i d k) (hmap : s'.clusterMap = s.clusterMap) : Image s' where
  toConsistent := consistent_of_rearranged (m.rearranged h.wellFormed) h.toConsistent hmap
  linked := m.keeps_linked h.wellFormed h.linked
  tidy := by
    intro b j he
    have hb := (m.existing_iff h.wellFormed b).mp he.existing
    rcases m.live_cases hb he.live with hd | ⟨-, hlive, hname, hext⟩
    · obtain ⟨rfl, rfl⟩ := Prod.mk.inj hd
      rw [m.put]
      exact h.tidy m.entry
    · rw [hname, hext]
      exact h.tidy ⟨hb, he.slot, hlive⟩
  rootLinks := h.rootLinks.congr (m.root_links h.wellFormed (by decide))
    (m.root_links h.wellFormed (by decide))

/-- Writing the two tables renames the entry. -/
theorem Image.renamed (h : Image s) (he : s.volume.LiveEntry p i)
    (hdest : ∀ j, ¬Names dest (s.volume.table p j))
    (hbelow : ∀ {c}, s.volume.Lists p i c → ∀ j, 2 ≤ j → ¬Names dest (s.volume.table c j))
    {srcTable : Option DirectoryTable}
    (hfile : ¬(s.volume.table p i).IsFolder → srcTable = none)
    (hfolder : ∀ {c}, s.volume.Lists p i c → srcTable = some (s.volume.table c)) :
    s.volume.Renamed (renameStorage s p i dest srcTable).volume p i (padName dest.chars) := by
  have hfresh : ∀ j, (s.volume.table p j).Live →
      (s.volume.table p j).ext = (s.volume.table p i).ext →
      (s.volume.table p j).name ≠ padName dest.chars := by
    intro j hlive hext hname
    exact hdest j ⟨hlive, hname, hext.trans (h.tidy he).ext⟩
  have hfreshBelow : ∀ {c}, s.volume.Lists p i c → ∀ j, 2 ≤ j → (s.volume.table c j).Live →
      (s.volume.table c j).ext = (s.volume.table c 0).ext →
      (s.volume.table c j).name ≠ padName dest.chars := by
    intro c hl j hj hlive hext hname
    exact hbelow hl j hj ⟨hlive, hname, hext.trans (h.linked hl).selfExt⟩
  by_cases hf : (s.volume.table p i).IsFolder
  · obtain ⟨c, -, hc, -⟩ := h.wellFormed.folder_chain he hf
    have hl : s.volume.Lists p i c := ⟨he, hf, hc⟩
    have honly : ∀ {b}, s.volume.Lists p i b → b = c := fun hb =>
      Cell.number_injective (hb.cluster.symm.trans hc)
    have hcp : c ≠ p := (h.wellFormed.rooted.ne_of_edge he.existing hl.child).symm
    have hvol : (renameStorage s p i dest srcTable).volume =
        Function.update (Function.update s.volume p (tableLayout (Function.update (s.volume.table p)
          i (renameEntry (s.volume.table p i) dest)))) c (tableLayout (Function.update
            (s.volume.table c) 0 (renameEntry (s.volume.table c 0) dest))) := by
      rw [hfolder hl, renameStorage, (h.linked hl).selfCluster, volume_writeClusters,
        volume_writeClusters]
    refine .of_tables he hfresh hfreshBelow ?_ (fun {b} hb => ?_) fun b hbp hb => ?_
    · rw [hvol, Volume.table, Function.update_of_ne hcp.symm, Function.update_self,
        Equiv.symm_apply_apply]
      rfl
    · obtain rfl := honly hb
      rw [hvol, Volume.table, Function.update_self, Equiv.symm_apply_apply]
      rfl
    · have hbc : b ≠ c := by
        rintro rfl
        exact hb hl
      rw [hvol, Function.update_of_ne hbc, Function.update_of_ne hbp]
  · have hvol : (renameStorage s p i dest srcTable).volume =
        Function.update s.volume p (tableLayout (Function.update (s.volume.table p) i
          (renameEntry (s.volume.table p i) dest))) := by
      rw [hfile hf, renameStorage]
      exact volume_writeClusters _ _ _
    refine .of_tables he hfresh hfreshBelow ?_ (fun hb => absurd hb.folder hf) fun b hbp _ => ?_
    · rw [hvol, Volume.table, Function.update_self, Equiv.symm_apply_apply]
      rfl
    · rw [hvol, Function.update_of_ne hbp]

theorem putEntry_zero (e : DirectoryEntry) (t : DirectoryTable) : putEntry e t 0 = t 0 := by
  cases hfind : slots.find? fun k => ¬(t k).Live with
  | none => rw [putEntry, hfind]
  | some k =>
    have hk := mem_slots.mp (List.mem_of_find?_eq_some hfind)
    rw [putEntry, hfind]
    refine Function.update_of_ne ?_ _ _
    rintro rfl
    exact absurd hk (by decide)

/-- An entry is put into the first free slot. -/
theorem putEntry_of_free {t : DirectoryTable} (hfree : ∃ k, 2 ≤ k ∧ ¬(t k).Live)
    (e : DirectoryEntry) : ∃ k, 2 ≤ k ∧ ¬(t k).Live ∧ putEntry e t = Function.update t k e := by
  obtain ⟨l, hl, hlfree⟩ := hfree
  cases hfind : slots.find? fun k => ¬(t k).Live with
  | none => exact absurd (decide_eq_true hlfree) (List.find?_eq_none.mp hfind l (mem_slots.mpr hl))
  | some k =>
    have hk := mem_slots.mp (List.mem_of_find?_eq_some hfind)
    have hfound := List.find?_some hfind
    exact ⟨k, hk, of_decide_eq_true hfound, by rw [putEntry, hfind]⟩

/-- Writing the tables moves the entry. -/
theorem Image.moved (h : Image s) {src : StringN} {d : Cell} (he : s.volume.LiveEntry p i)
    (hn : Names src (s.volume.table p i)) (hd : s.volume.Existing d) (hdp : d ≠ p)
    (houtside : ∀ {c}, s.volume.Lists p i c → ¬ReflTransGen s.volume.Child c d)
    (htakes : Takes (s.volume.table d) src) {srcTable : Option DirectoryTable}
    (hfile : ¬(s.volume.table p i).IsFolder → srcTable = none)
    (hfolder : ∀ {c}, s.volume.Lists p i c → srcTable = some (s.volume.table c)) :
    ∃ k, s.volume.Moved (moveStorage s p i (s.volume.table d) srcTable).volume p i d k := by
  obtain ⟨k, hk, hfree, hput⟩ := putEntry_of_free htakes.free (s.volume.table p i)
  have hzero := putEntry_zero (s.volume.table p i) (s.volume.table d)
  have hself := (h.self hd).2
  have hfresh : ∀ j, (s.volume.table d j).Live →
      (s.volume.table d j).ext = (s.volume.table p i).ext →
      (s.volume.table d j).name ≠ (s.volume.table p i).name := fun j hlive hext hname =>
    htakes.fresh j ⟨hlive, hname.trans hn.name, hext.trans hn.ext⟩
  refine ⟨k, ?_⟩
  by_cases hf : (s.volume.table p i).IsFolder
  · obtain ⟨c, -, hc, -⟩ := h.wellFormed.folder_chain he hf
    have hl : s.volume.Lists p i c := ⟨he, hf, hc⟩
    have honly : ∀ {b}, s.volume.Lists p i b → b = c := fun hb =>
      Cell.number_injective (hb.cluster.symm.trans hc)
    have hcp : c ≠ p := (h.wellFormed.rooted.ne_of_edge he.existing hl.child).symm
    have hcd : c ≠ d := by
      rintro rfl
      exact houtside hl .refl
    have hvol : (moveStorage s p i (s.volume.table d) srcTable).volume =
        Function.update (Function.update (Function.update s.volume p (tableLayout
          (Function.update (s.volume.table p) i .zero))) d (tableLayout
            (Function.update (s.volume.table d) k (s.volume.table p i)))) c (tableLayout
              (reparent (s.volume.table c) (s.volume.table d 0))) := by
      rw [hfolder hl, moveStorage, hzero, hself, (h.linked hl).selfCluster, volume_writeClusters,
        volume_writeClusters, volume_writeClusters, hput]
    refine .of_tables he hd hk hfree houtside hfresh hself ?_ ?_ (fun {b} hb => ?_)
      fun b hbp hbd hb => ?_
    · rw [hvol, Volume.table, Function.update_of_ne hcp.symm, Function.update_of_ne hdp.symm,
        Function.update_self, Equiv.symm_apply_apply]
    · rw [hvol, Volume.table, Function.update_of_ne hcd.symm, Function.update_self,
        Equiv.symm_apply_apply]
    · obtain rfl := honly hb
      rw [hvol, Volume.table, Function.update_self, Equiv.symm_apply_apply]
      rfl
    · have hbc : b ≠ c := by
        rintro rfl
        exact hb hl
      rw [hvol, Function.update_of_ne hbc, Function.update_of_ne hbd, Function.update_of_ne hbp]
  · have hvol : (moveStorage s p i (s.volume.table d) srcTable).volume =
        Function.update (Function.update s.volume p (tableLayout
          (Function.update (s.volume.table p) i .zero))) d (tableLayout
            (Function.update (s.volume.table d) k (s.volume.table p i))) := by
      rw [hfile hf, moveStorage, hzero, hself, volume_writeClusters, volume_writeClusters, hput]
    refine .of_tables he hd hk hfree houtside hfresh hself ?_ ?_ (fun hb => absurd hb.folder hf)
      fun b hbp hbd _ => ?_
    · rw [hvol, Volume.table, Function.update_of_ne hdp.symm, Function.update_self,
        Equiv.symm_apply_apply]
    · rw [hvol, Volume.table, Function.update_self, Equiv.symm_apply_apply]
    · rw [hvol, Function.update_of_ne hbd, Function.update_of_ne hbp]

end Meaning

/-- What `mv` in directory `p` does to the storage, outside the cases that go wrong. -/
inductive MvEffect (p : Cell) (s s' : Storage) : Prop
  | unchanged (h : s' = s)
  | renamed {i : Fin 64} {name : Bytes 8} (r : s.volume.Renamed s'.volume p i name)
  | moved {i : Fin 64} {d : Cell} {k : Fin 64} (m : s.volume.Moved s'.volume p i d k)

section Mv
variable {sh : Globals} {s : System} {p : Cell} {src dest : StringN}

theorem InStep.look {s : Storage} (h : InStep sh s p) (str : StringN) :
    (entryAt (s.volume.table p) str = none ∧
      readDirectory (namedRequest (padName str.chars) sh.currentDirCluster clusterSize) s =
        (2, none)) ∨
    ∃ i, entryAt (s.volume.table p) str = some i ∧
      ((¬(s.volume.table p i).IsFolder ∧
        readDirectory (namedRequest (padName str.chars) sh.currentDirCluster clusterSize) s =
          (1, none)) ∨
      ∃ c, (s.volume.table p i).IsFolder ∧ (s.volume.table p i).cluster = c.number ∧
        s.volume.Existing c ∧
        readDirectory (namedRequest (padName str.chars) sh.currentDirCluster clusterSize) s =
          (0, some (s.volume c))) := by
  cases hat : entryAt (s.volume.table p) str with
  | none => exact .inl ⟨rfl, readDirectory_none h.cluster hat⟩
  | some i =>
    have hlook : lookup (s.volume.table p)
        (namedRequest (padName str.chars) sh.currentDirCluster clusterSize) = some i := hat
    refine .inr ⟨i, rfl, ?_⟩
    by_cases hf : (s.volume.table p i).IsFolder
    · have hcluster : ∃ c, (s.volume.table p i).cluster = Cell.number c ∧ s.volume.Existing c := by
        by_cases hi : 2 ≤ i
        · obtain ⟨c, -, hc, -, -, hex⟩ :=
            h.wellFormed.folder_chain ⟨h.existing, hi, (entryAt_eq_some hat).live⟩ hf
          exact ⟨c, hc, hex⟩
        · have hi' : i = 0 ∨ i = 1 := by omega
          rcases hi' with rfl | rfl
          · exact ⟨p, (h.toImage.self h.existing).2, h.existing⟩
          · obtain ⟨d, hd, -, hc⟩ := h.toImage.parent h.existing
            exact ⟨d, hc, hd⟩
      obtain ⟨c, hc, hex⟩ := hcluster
      exact .inr ⟨c, hf, hc, hex, readDirectory_folder h.cluster hlook hf hc
        (show (32 : UInt32) ≤ clusterSize by decide)⟩
    · exact .inl ⟨hf, readDirectory_file h.cluster hlook hf⟩

/-- A folder found in the current directory is not below another entry of it. -/
theorem InStep.outside {s : Storage} (h : InStep sh s p) {i j : Fin 64} {c d : Cell}
    (hl : s.volume.Lists p i c) (hij : i ≠ j) (hlive : (s.volume.table p j).Live)
    (hfolder : (s.volume.table p j).IsFolder) (hcluster : (s.volume.table p j).cluster = d.number)
    (hdp : d ≠ p) : ¬ReflTransGen s.volume.Child c d := by
  by_cases hj : 2 ≤ j
  · have hl' : s.volume.Lists p j d := ⟨⟨h.existing, hj, hlive⟩, hfolder, hcluster⟩
    refine h.wellFormed.rooted.not_reach_sibling h.existing hl.child hl'.child ?_
    rintro rfl
    exact hij (hl.unique h.wellFormed hl').2
  · have hj' : j = 0 ∨ j = 1 := by omega
    rcases hj' with rfl | rfl
    · have hself := (h.toImage.self h.existing).2
      exact absurd (Cell.number_injective (hcluster.symm.trans hself)) hdp
    · rcases h.existing.listed with rfl | ⟨b, l, hb⟩
      · exact absurd (Cell.number_injective (hcluster.symm.trans h.rootLinks.parentCluster)) hdp
      · obtain rfl := Cell.number_injective (hcluster.symm.trans (h.linked hb).parentCluster)
        exact h.wellFormed.rooted.not_reach_grandparent hb.existing hb.child hl.child

theorem run_mvTo (hsrc : Word src) (hdest : Word dest) (h : InStep sh s.storage p)
    (hg : MoveGuard s.storage sh.currentDirCluster src dest) {i : Fin 64}
    (hat : entryAt (s.storage.volume.table p) src = some i) {srcTable : Option DirectoryTable}
    (hfile : ¬(s.storage.volume.table p i).IsFolder → srcTable = none)
    (hfolder : ∀ {c}, s.storage.volume.Lists p i c →
      srcTable = some (s.storage.volume.table c)) :
    ∃ sh' s', run (mvTo src dest srcTable sh) s = .ok (sh', s') ∧ SameRoot sh sh' ∧
      InStep sh' s'.storage p ∧ MvEffect p s.storage s'.storage := by
  have hguard := hg i
  rw [h.cluster, directoryTable_number] at hguard
  have hguard := hguard hat
  have hnames := entryAt_eq_some hat
  rw [mvTo]
  rcases h.look dest with ⟨hnone, hread⟩ | ⟨j, hj, ⟨hf, hread⟩ | ⟨d, hf, hd, hex, hread⟩⟩
  · -- rename
    rw [run_bind_ok (run_readDirectoryCall _ _), hread]
    dsimp only
    rw [if_neg (by decide), if_pos rfl]
    by_cases hi : 2 ≤ i
    · have hfind := (h.toImage.findEntry_eq_some h.existing hsrc).mpr ⟨hi, hnames⟩
      obtain ⟨output, hrun⟩ := run_mvRename h.cluster h.table hfind dest srcTable
      rw [hnone] at hguard
      have hr := h.toImage.renamed ⟨h.existing, hi, hnames.live⟩ (entryAt_eq_none.mp hnone)
        (fun {c} hl => by
          have hbelow := hguard hi hl.folder
          rw [hl.cluster, directoryTable_number] at hbelow
          exact hbelow) hfile hfolder
      have himage := h.toImage.of_renamed hdest hr (clusterMap_renameStorage _ _ _ _ _)
      exact ⟨_, _, hrun, ⟨rfl, rfl, rfl⟩, ⟨himage, (hr.existing_iff p).mpr h.existing, h.cluster,
        rfl⟩, .renamed hr⟩
    · -- a link slot is not renamed
      have hfind : findEntry src.buf (s.storage.volume.table p) = none := by
        rw [h.toImage.findEntry_eq h.existing hsrc, hat]
        exact Option.filter_some_neg (decide_eq_false hi)
      rw [mvRename, h.table, hfind]
      exact ⟨_, _, rfl, .refl _, h, .unchanged rfl⟩
  · rw [run_bind_ok (run_readDirectoryCall _ _), hread]
    exact ⟨_, _, rfl, .refl _, h, .unchanged rfl⟩
  · -- move
    rw [run_bind_ok (run_readDirectoryCall _ _), hread]
    dsimp only
    rw [if_neg (by decide), if_neg (by decide)]
    rw [hj] at hguard
    obtain ⟨hi, hij, hne, htakes⟩ := hguard hf
    rw [hd, directoryTable_number] at htakes
    have hdp : d ≠ p := by
      rintro rfl
      exact hne hd
    have hfind := (h.toImage.findEntry_eq_some h.existing hsrc).mpr ⟨hi, hnames⟩
    obtain ⟨output, hrun⟩ := run_mvMove h.cluster h.table hfind dest srcTable
      (s.storage.volume.table d)
    obtain ⟨k, hm⟩ := h.toImage.moved ⟨h.existing, hi, hnames.live⟩ hnames hex hdp
      (fun hl => h.outside hl hij (entryAt_eq_some hj).live hf hd hdp) htakes hfile hfolder
    have himage := h.toImage.of_moved hm (clusterMap_moveStorage _ _ _ _ _)
    exact ⟨_, _, hrun, ⟨rfl, rfl, rfl⟩, ⟨himage, (hm.existing_iff h.wellFormed p).mpr h.existing,
      h.cluster, rfl⟩, .moved hm⟩

/-- The step lemma of `mv`: it returns, in step with the disk. -/
theorem run_mv (hsrc : Word src) (hdest : Word dest) (h : InStep sh s.storage p)
    (hg : MoveGuard s.storage sh.currentDirCluster src dest) :
    ∃ sh' s', run (mv src dest sh) s = .ok (sh', s') ∧ SameRoot sh sh' ∧
      InStep sh' s'.storage p ∧ MvEffect p s.storage s'.storage := by
  obtain ⟨hle, hpos⟩ := hsrc.accepted hdest
  rw [mv, if_neg hle, if_neg hpos, run_bind_ok (run_readDirectoryCall _ _)]
  rcases h.look src with ⟨hnone, hread⟩ | ⟨i, hi, ⟨hf, hread⟩ | ⟨c, hf, hc, hex, hread⟩⟩
  · rw [hread]
    exact ⟨_, _, rfl, .refl _, h, .unchanged rfl⟩
  · rw [hread]
    exact run_mvTo hsrc hdest h hg hi (fun _ => rfl) fun hl => absurd hl.folder hf
  · rw [hread]
    refine run_mvTo hsrc hdest h hg hi (fun hfile => absurd hf hfile) fun {b} hl => ?_
    obtain rfl := Cell.number_injective (hl.cluster.symm.trans hc)
    rfl

end Mv

end Os2024.Shell
