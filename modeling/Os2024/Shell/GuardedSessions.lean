import Os2024.Shell.UnguardedMoves

/-! # Guarded sessions

A session starts when the shell has loaded the root and goes from command to command.
As long as every `mv` keeps to its guard, the shell stays in step with the disk, so
the tree stays a tree, `cd` leads where it should and `mv` loses nothing.
-/

namespace Os2024.Shell
open Library.PackedLayout Library.CallTrees Library.Runs Relation FileSystem FileSystem.Volume

/-- The shell has started on the file system `s`. -/
def Boots (s : Storage) (σ : Globals × System) : Prop :=
  ∃ fuel sh output, run (loadRoot fuel sh) ⟨s, output⟩ = .ok σ

structure RootCopy (sh : Globals) (t : DirectoryTable) : Prop where
  dir : sh.rootDir = t
  path : sh.rootDirPath = ⟨ascii "./"⟩
  cluster : sh.rootDirCluster = rootClusterNumber

theorem readDirectory_root {s : Storage} (h : Image s) :
    readDirectory (namedRequest rootName rootClusterNumber 2048) s = (0, some (s.volume 2)) := by
  refine readDirectory_folder rfl (lookup_zero (h.wellFormed.links .refl).1 ⟨?_, ?_⟩)
    h.rootLinks.selfFolder h.rootLinks.selfCluster (show (32 : UInt32) ≤ 2048 by decide)
  · rw [h.rootLinks.selfName, linkEntry_name, copyName_rootName]
    rfl
  · exact h.rootLinks.selfExt

theorem run_createPath_root {s : Storage} (h : Image s) (sh : Globals) (output : List PutsArgs)
    (fuel : ℕ) : run (createPath fuel (setCurrentCluster { sh with currentDir := s.volume.table 2 }))
      ⟨s, output⟩ = run (createPathRecursive fuel (Cell.number 2) >>= fun path =>
        pure (sh.enter s.volume 2 path)) ⟨s, output⟩ := run_createPath (h.self .refl).2 rfl

theorem boots_inStep {s : Storage} (h : Image s) {σ : Globals × System} (hboot : Boots s σ) :
    σ.2.storage = s ∧ InStep σ.1 s 2 ∧ RootCopy σ.1 (s.volume.table 2) := by
  obtain ⟨fuel, sh, output, hrun⟩ := hboot
  rw [loadRoot, run_bind_ok (run_readDirectoryCall _ _), readDirectory_root h] at hrun
  dsimp only at hrun
  obtain ⟨sh₁, s₁, hpath, hrun⟩ := of_run_bind hrun
  have hcreate := run_createPath_root h sh output fuel
  obtain ⟨path, s₂, hbuild, hpath⟩ := of_run_bind (hcreate.symm.trans hpath)
  obtain ⟨rfl, rfl⟩ := Prod.mk.inj (Except.ok.inj hpath)
  obtain rfl := Except.ok.inj hrun
  obtain rfl := system_of_silent (createPathRecursive_silent _ _) hbuild
  have hroot : path = ⟨ascii "./"⟩ := by
    cases fuel with
    | zero => cases hbuild
    | succ fuel =>
      have hclosed : run (createPathRecursive (fuel + 1) (Cell.number 2)) ⟨s, output⟩ = _ :=
        run_createPathRecursive h.wellFormed h.linked .root (Nat.succ_pos fuel)
      rw [if_pos (show (pathChars []).length ≤ 256 by decide), hbuild] at hclosed
      exact (Prod.mk.inj (Except.ok.inj hclosed)).1
  exact ⟨rfl, ⟨h, .refl, rfl, rfl⟩, rfl, hroot, rfl⟩

theorem Image.boots {s : Storage} (h : Image s) (sh : Globals) (output : List PutsArgs) :
    ∃ sh', Boots s (sh', ⟨s, output⟩) := by
  have hread : run (readDirectoryCall (namedRequest rootName rootClusterNumber 2048))
      ⟨s, output⟩ = .ok ((0, some (s.volume 2)), ⟨s, output⟩) := by
    rw [run_readDirectoryCall, readDirectory_root h]
  have hbuild : run (createPathRecursive 1 (Cell.number 2)) ⟨s, output⟩ = _ :=
    run_createPathRecursive h.wellFormed h.linked .root Nat.one_pos
  rw [if_pos (show (pathChars []).length ≤ 256 by decide)] at hbuild
  have hcreate := (run_createPath_root h sh output 1).trans (run_bind_ok hbuild)
  refine ⟨{ sh.enter s.volume 2 ⟨pathChars []⟩ with
    rootDir := s.volume.table 2
    rootDirPath := ⟨pathChars []⟩
    rootDirCluster := Cell.number 2 }, 1, sh, output, ?_⟩
  rw [loadRoot, run_bind_ok hread]
  exact (run_bind_ok hcreate).trans run_pure

def bootCluster : Cluster := clusterBlocks fun i => if i.val = 0 then fsSignature else fun _ => 0

theorem createFat32_bootCluster : (createFat32 blankStorage).volume 0 = bootCluster := by
  have hsigned := createFat32_signed blankStorage
  rw [Signed] at hsigned
  rw [← clusterBlocks.apply_symm_apply ((createFat32 blankStorage).volume 0), bootCluster]
  refine congrArg clusterBlocks (funext fun i => ?_)
  split_ifs with hi
  · rw [show i = 0 from Fin.ext hi, hsigned]
  · have hpos : 0 < i.val := Nat.pos_of_ne_zero hi
    have hblock : clusterBlocks.symm ((createFat32 blankStorage).volume 0) i =
        (createFat32 blankStorage).disk (0 + i.val) := by
      rw [Storage.volume, diskVolume, readClusters, Equiv.symm_apply_apply]
      rfl
    rw [hblock, createFat32_disk_outside _ (.inl ⟨by omega, by omega⟩)]
    rfl

/-- The clusters that the text of the boot sector leads to. -/
theorem bootCluster_links : ((tableLayout.symm bootCluster) 0).cluster = 0x6E672079 ∧
    ((tableLayout.symm bootCluster) 1).cluster = 0x7720333C ∧
    (entryName ((tableLayout.symm bootCluster) 0)).length < 256 := by
  unfold tableLayout
  decide +kernel

theorem createFat32_blankTable {n : UInt32} (h : 12 ≤ (clusterToLba n).toNat) :
    (createFat32 blankStorage).directoryTable n = fun _ => .zero := by
  have hblank : readClusters n (createFat32 blankStorage).disk = fun _ => 0 := by
    rw [readClusters]
    refine (congrArg clusterBlocks (funext fun i => ?_)).trans (show clusterBlocks (fun _ _ => 0) = _ from rfl)
    exact createFat32_disk_outside _ (.inr (le_add_right h))
  rw [Storage.directoryTable, hblank]
  unfold tableLayout
  funext i
  rfl

/-- The root of a formatted disk leads into the boot sector, and from there nowhere. -/
theorem loadRoot_formatted_diverges (fuel : ℕ) (sh : Globals) (output : List PutsArgs) :
    run (loadRoot fuel sh) ⟨createFat32 blankStorage, output⟩ = .error .diverges := by
  obtain ⟨hfirst, hsecond, hlen⟩ := bootCluster_links
  have hboot : (createFat32 blankStorage).directoryTable 0 = tableLayout.symm bootCluster := by
    rw [show (0 : UInt32) = Cell.number 0 from rfl, directoryTable_number, Volume.table,
      createFat32_bootCluster]
  have hzero : entryName .zero = [] := by decide
  -- the paths of a cluster outside the file system and of cluster 0 need one another
  have hblank : ∀ {n : UInt32} {fuel : ℕ}, 12 ≤ (clusterToLba n).toNat →
      run (createPathRecursive fuel 0) ⟨createFat32 blankStorage, output⟩ = .error .diverges →
      run (createPathRecursive (fuel + 1) n) ⟨createFat32 blankStorage, output⟩ =
        .error .diverges := by
    intro n fuel hn hparent
    have htable := createFat32_blankTable hn
    refine createPathRecursive_diverges ?_ ?_ ?_
    · rintro rfl
      exact absurd hn (by decide)
    · rw [htable, hzero]
      decide
    · rw [htable]
      exact hparent
  have hcycle : ∀ fuel, run (createPathRecursive fuel 0) ⟨createFat32 blankStorage, output⟩ =
        .error .diverges ∧
      run (createPathRecursive fuel 0x7720333C) ⟨createFat32 blankStorage, output⟩ =
        .error .diverges := by
    intro fuel
    induction fuel with
    | zero => exact ⟨rfl, rfl⟩
    | succ fuel ih =>
      refine ⟨createPathRecursive_diverges (by decide) ?_ ?_, hblank (by decide) ih.1⟩
      · rw [hboot]
        exact hlen
      · rw [hboot, hsecond]
        exact ih.2
  have hstart : run (createPathRecursive fuel 0x6E672079) ⟨createFat32 blankStorage, output⟩ =
      .error .diverges := by
    cases fuel with
    | zero => rfl
    | succ fuel => exact hblank (by decide) (hcycle fuel).1
  have hread : run (readDirectoryCall (namedRequest rootName rootClusterNumber 2048))
      ⟨createFat32 blankStorage, output⟩ =
      .ok ((0, some bootCluster), ⟨createFat32 blankStorage, output⟩) := by
    rw [run_readDirectoryCall, ← createFat32_bootCluster]
    exact congrArg (fun r => Except.ok (r, _)) formatted_root_links_wrong.2.1
  rw [loadRoot, run_bind_ok hread]
  refine run_bind_error ?_
  rw [createPath]
  refine run_bind_error ?_
  change run (createPathRecursive fuel (tableLayout.symm bootCluster 0).cluster) _ = _
  rw [hfirst, hstart]

def recordRoot (s : Storage) : Storage :=
  s.writeClusters (Cell.number 2)
    (tableLayout (Function.update (s.volume.table 2) 0 (linkEntry rootName (Cell.number 2))))

theorem recordRoot_table (s : Storage) : (recordRoot s).volume.table 2 =
    Function.update (s.volume.table 2) 0 (linkEntry rootName (Cell.number 2)) := by
  rw [recordRoot, Volume.table, volume_writeClusters, Function.update_self,
    Equiv.symm_apply_apply]

theorem recordRoot_cached {s : Storage} (h : s.volume.fat = s.clusterMap) :
    (recordRoot s).volume.fat = (recordRoot s).clusterMap := by
  rw [recordRoot, fat_writeClusters _ (by decide), h, clusterMap_writeClusters]

theorem recordRoot_fat (s : Storage) : (recordRoot s).volume.fat = s.volume.fat := by
  rw [recordRoot, fat_writeClusters _ (by decide)]

theorem recordRoot_fresh (s : Storage) :
    FreshTable ((recordRoot (createFat32 s)).volume.table 2) := by
  obtain ⟨-, h1, hrest⟩ := createFat32_root s
  rw [recordRoot_table]
  refine ⟨?_, ?_, fun i hi => ?_⟩
  · rw [Function.update_self]
    exact linkEntry_live _ _
  · rw [Function.update_of_ne (by decide)]
    exact h1
  · rw [Function.update_of_ne (by rintro rfl; exact absurd hi (by decide))]
    exact hrest i hi

theorem recordRoot_image (s : Storage) : Image (recordRoot (createFat32 s)) where
  wellFormed := wellFormed_of_fresh (recordRoot_fresh s)
    ((recordRoot_fat _).trans (createFat32_fat s))
  cached := recordRoot_cached (createFat32_consistent s).cached
  linked h := absurd h.toLiveEntry (not_liveEntry_of_fresh (recordRoot_fresh s) _ _)
  tidy h := absurd h (not_liveEntry_of_fresh (recordRoot_fresh s) _ _)
  rootLinks := by
    have hself : (recordRoot (createFat32 s)).volume.table 2 0 =
        linkEntry (copyName (linkEntry rootName (Cell.number 2)).name) (Cell.number 2) := by
      rw [recordRoot_table, Function.update_self, linkEntry_name, copyName_rootName]
    have hparent : (recordRoot (createFat32 s)).volume.table 2 1 =
        linkEntry rootName (Cell.number 2) := by
      rw [recordRoot_table, Function.update_of_ne (by decide), (createFat32_links s).2]
      rfl
    exact linksOf_new hself hparent

theorem recordRoot_names (s : Storage) {str : StringN} (hw : Word str)
    (hroot : str.chars ≠ ascii "root") (i : Fin 64) :
    ¬Names str ((recordRoot (createFat32 s)).volume.table 2 i) := by
  intro hn
  by_cases hi : 2 ≤ i
  · exact (recordRoot_fresh s).not_live hi hn.live
  · have hname : ((recordRoot (createFat32 s)).volume.table 2 i).name = rootName := by
      rw [recordRoot_table]
      have hi' : i = 0 ∨ i = 1 := by omega
      rcases hi' with rfl | rfl
      · rw [Function.update_self, linkEntry_name]
      · rw [Function.update_of_ne (by decide), (createFat32_links s).2, linkEntry_name]
    refine hroot ?_
    rw [← hw.nameChars, ← hn.name, hname]
    decide

/-- A command of a guarded session that has run to its end. -/
structure GuardedCommand (σ : Globals × System) (cmd : Command) (σ' : Globals × System) : Prop where
  words : cmd.Words
  notFind : ∀ filename, cmd ≠ .find filename
  guard : ∀ src dest, cmd = .mv src dest →
    MoveGuard σ.2.storage σ.1.currentDirCluster src dest
  ran : ∃ fuel, run (cmd.exec fuel σ.1) σ.2 = .ok σ'

/-- The step lemma of guarded sessions. -/
theorem GuardedCommand.inStep {σ σ' : Globals × System} {cmd : Command} {p : Cell}
    (hstep : GuardedCommand σ cmd σ') (h : InStep σ.1 σ.2.storage p) :
    SameRoot σ.1 σ'.1 ∧ ∃ p', InStep σ'.1 σ'.2.storage p' := by
  obtain ⟨hw, hfind, hguard, fuel, hrun⟩ := hstep
  by_cases hsimple : cmd.Simple
  · obtain ⟨hroot, -, h'⟩ := run_simple_ok hsimple hw h hrun
    exact ⟨hroot, h'⟩
  · cases cmd with
    | mv src dest =>
      obtain ⟨sh', s', hmv, hroot, h', -⟩ := run_mv hw.1 hw.2 h (hguard src dest rfl)
      obtain rfl := Except.ok.inj (hmv.symm.trans hrun)
      exact ⟨hroot, p, h'⟩
    | find filename => exact absurd rfl (hfind filename)
    | cd _ | mkdir _ | rm _ | cp _ _ _ _ | prompt => exact absurd trivial hsimple

theorem RootCopy.of_same {sh sh' : Globals} {t : DirectoryTable} (h : RootCopy sh t)
    (hsame : SameRoot sh sh') : RootCopy sh' t :=
  ⟨hsame.dir.trans h.dir, hsame.path.trans h.path, hsame.cluster.trans h.cluster⟩

/-- The run lemma: the shell is in step with the disk and keeps its copy of the root. -/
theorem guardedSession_keeps {s₀ : Storage} (h₀ : Image s₀) {σ₀ σ : Globals × System}
    (hboot : Boots s₀ σ₀) (h : Run GuardedCommand σ₀ σ) :
    (∃ p, InStep σ.1 σ.2.storage p) ∧ RootCopy σ.1 (s₀.volume.table 2) := by
  obtain ⟨hs, hstep, hroot⟩ := boots_inStep h₀ hboot
  refine h.invariant (I := fun σ => (∃ p, InStep σ.1 σ.2.storage p) ∧
    RootCopy σ.1 (s₀.volume.table 2)) ⟨⟨2, hs ▸ hstep⟩, hroot⟩ ?_
  rintro σ cmd σ' ⟨⟨p, hp⟩, hroot⟩ hcmd
  obtain ⟨hsame, hp'⟩ := hcmd.inStep hp
  exact ⟨hp', hroot.of_same hsame⟩

theorem guardedSession_inStep {s₀ : Storage} (h₀ : Image s₀) {σ₀ σ : Globals × System}
    (hboot : Boots s₀ σ₀) (h : Run GuardedCommand σ₀ σ) : ∃ p, InStep σ.1 σ.2.storage p :=
  (guardedSession_keeps h₀ hboot h).1

theorem boots_mkdir {name : StringN} (hw : Word name) (hroot : name.chars ≠ ascii "root") :
    ∃ σ₀ σ k c, Boots (recordRoot (createFat32 blankStorage)) σ₀ ∧
      GuardedCommand σ₀ (.mkdir name) σ ∧ InStep σ.1 σ.2.storage 2 ∧
      Made (recordRoot (createFat32 blankStorage)) σ.2.storage 2 name k c := by
  have himage := recordRoot_image blankStorage
  obtain ⟨sh, hboot⟩ := himage.boots ⟨fun _ => .zero, ⟨[]⟩, 0, fun _ => .zero, ⟨[]⟩, 0, 0⟩ []
  obtain ⟨-, hstep, -⟩ := boots_inStep himage hboot
  have hroom : (recordRoot (createFat32 blankStorage)).clusterMap 3 = fatEmptyEntry := by
    rw [recordRoot, clusterMap_writeClusters]
    rfl
  obtain ⟨s₁, output, k, c, hrun, hmade⟩ := run_mkdir (s := ⟨_, []⟩) hw hstep
    ⟨2, le_rfl, (recordRoot_fresh blankStorage).not_live le_rfl⟩
    (recordRoot_names blankStorage hw hroot) ⟨3, hroom⟩
  have hcmd : GuardedCommand (sh, ⟨recordRoot (createFat32 blankStorage), []⟩) (.mkdir name)
      (_, ⟨s₁, output⟩) := ⟨hw, by rintro _ ⟨⟩, by rintro _ _ ⟨⟩, 0, hrun⟩
  obtain ⟨-, p, hp⟩ := hcmd.inStep hstep
  obtain rfl : p = 2 := Cell.number_injective (hp.cluster.symm.trans hstep.cluster)
  exact ⟨_, _, k, c, hboot, hcmd, hp, hmade⟩

theorem session_mkdir {name : StringN} (hw : Word name) (hroot : name.chars ≠ ascii "root") :
    ∃ σ₀ σ k c, Boots (recordRoot (createFat32 blankStorage)) σ₀ ∧ Run GuardedCommand σ₀ σ ∧
      InStep σ.1 σ.2.storage 2 ∧
      Made (recordRoot (createFat32 blankStorage)) σ.2.storage 2 name k c := by
  obtain ⟨σ₀, σ, k, c, hboot, hcmd, hp, hmade⟩ := boots_mkdir hw hroot
  exact ⟨σ₀, σ, k, c, hboot, (Run.refl _).tail hcmd, hp, hmade⟩

def nameA : StringN := ⟨ascii "a"⟩

theorem nameA_word : Word nameA := ⟨by decide, by decide, ne_zero_of_all (by decide)⟩

/-- In every guarded session, a guarded `mv` returns and leaves the disk unchanged or conserves the
live entries. -/
theorem guardedSession_mv {s₀ : Storage} (h₀ : Image s₀) {σ₀ σ : Globals × System}
    (hboot : Boots s₀ σ₀) (h : Run GuardedCommand σ₀ σ) {src dest : StringN} (hsrc : Word src)
    (hdest : Word dest) (hguard : MoveGuard σ.2.storage σ.1.currentDirCluster src dest) :
    ∃ sh' s', run (mv src dest σ.1) σ.2 = .ok (sh', s') ∧
      (s'.storage = σ.2.storage ∨ σ.2.storage.volume.Conserved s'.storage.volume) := by
  obtain ⟨p, hp⟩ := guardedSession_inStep h₀ hboot h
  obtain ⟨sh', s', hrun, -, -, heff⟩ := run_mv hsrc hdest hp hguard
  refine ⟨sh', s', hrun, ?_⟩
  cases heff with
  | unchanged hs => exact .inl hs
  | renamed r => exact .inr (r.conserved hp.wellFormed)
  | moved m => exact .inr (m.conserved hp.wellFormed)

theorem guardedSession_mv_folderA : ∃ (σ : Globals × System) (c : Cell) (sh' : Globals)
    (s' : System), σ.2.storage.volume.Existing c ∧ c ≠ 2 ∧
    run (mv nameA ⟨ascii "b"⟩ σ.1) σ.2 = .ok (sh', s') ∧
    (s'.storage = σ.2.storage ∨ σ.2.storage.volume.Conserved s'.storage.volume) := by
  obtain ⟨σ₀, σ, k, c, hboot, hrun, hp, hmade⟩ := session_mkdir nameA_word (by decide)
  have hb : Word ⟨ascii "b"⟩ := ⟨by decide, by decide, ne_zero_of_all (by decide)⟩
  have hnone : entryAt (σ.2.storage.volume.table 2) ⟨ascii "b"⟩ = none := by
    refine entryAt_eq_none.mpr fun j hn => ?_
    by_cases hj : j = k
    · subst j
      have hchars := (hn.entryName hb).symm.trans (hmade.named.entryName nameA_word)
      exact absurd hchars (by decide)
    · rw [hmade.others j hj] at hn
      exact recordRoot_names blankStorage hb (by decide) j hn
  have hguard : MoveGuard σ.2.storage σ.1.currentDirCluster nameA ⟨ascii "b"⟩ := by
    intro i hi
    rw [hp.cluster, directoryTable_number] at hi ⊢
    rw [hnone]
    intro hi2 hfolder j hj hn
    obtain rfl := hp.toImage.names_unique hp.existing hi2 (entryAt_eq_some hi) hmade.named
    rw [hmade.lists.cluster, directoryTable_number] at hn
    exact hmade.fresh.not_live hj hn.live
  obtain ⟨sh', s', hmv, hconserved⟩ :=
    guardedSession_mv (recordRoot_image blankStorage) hboot hrun nameA_word hb hguard
  exact ⟨σ, c, sh', s', hmade.lists.existing_child, hmade.lists.child_ne_root hp.wellFormed, hmv,
    hconserved⟩

/-- The folder `a` moved into itself is lost. -/
theorem mv_folderA_itself_lost : ∃ (σ₀ σ : Globals × System) (c : Cell) (sh' : Globals)
    (s' : System), Boots (recordRoot (createFat32 blankStorage)) σ₀ ∧ Run GuardedCommand σ₀ σ ∧
    InStep σ.1 σ.2.storage 2 ∧ σ.2.storage.volume.Existing c ∧ c ≠ 2 ∧
    run (mv nameA nameA σ.1) σ.2 = .ok (sh', s') ∧
    ¬(s'.storage = σ.2.storage ∨ σ.2.storage.volume.Conserved s'.storage.volume) := by
  obtain ⟨σ₀, σ, k, c, hboot, hrun, hp, hmade⟩ := session_mkdir nameA_word (by decide)
  obtain ⟨sh', s', hmv, hlost⟩ := run_mv_itself nameA_word hp hmade.lists hmade.named
  refine ⟨σ₀, σ, c, sh', s', hboot, hrun, hp, hmade.lists.existing_child,
    hmade.lists.child_ne_root hp.wellFormed, hmv, ?_⟩
  rintro (hsame | hconserved)
  · have he := hmade.lists
    rw [← hsame] at he
    exact hlost 2 k he.toLiveEntry he.cluster
  · obtain ⟨d, j, he, hcluster⟩ :=
      (hconserved.clusters c.number).mpr ⟨2, k, hmade.lists.toLiveEntry, hmade.lists.cluster⟩
    exact hlost d j he hcluster

/-- In every guarded session, `cd` into a subdirectory whose name is not reserved and whose path
fits leads to its table, and `cd ..` leads back. -/
theorem guardedSession_cd {s₀ : Storage} (h₀ : Image s₀) {σ₀ σ : Globals × System}
    (hboot : Boots s₀ σ₀) (h : Run GuardedCommand σ₀ σ) {i : Fin 64} (hi : 2 ≤ i)
    (hlive : (σ.1.currentDir i).Live) (hfolder : (σ.1.currentDir i).IsFolder)
    (hself : entryName (σ.1.currentDir i) ≠ ascii ".")
    (hparent : entryName (σ.1.currentDir i) ≠ ascii "..")
    (hfit : ∀ c names, (σ.1.currentDir i).cluster = Cell.number c →
      PathTo σ.2.storage.volume c names → (pathChars names).length ≤ 256) :
    ∃ depth, ∀ fuel print, depth < fuel → ∃ sh' s' sh'' s'',
      run (cd fuel ⟨entryName (σ.1.currentDir i)⟩ print σ.1) σ.2 = .ok (sh', s') ∧
      s'.storage = σ.2.storage ∧ sh'.currentDirCluster = (σ.1.currentDir i).cluster ∧
      sh'.currentDir = σ.2.storage.directoryTable (σ.1.currentDir i).cluster ∧
      run (cd fuel ⟨ascii ".."⟩ print sh') s' = .ok (sh'', s'') ∧
      s''.storage = σ.2.storage ∧ sh''.currentDirCluster = σ.1.currentDirCluster ∧
      sh''.currentDir = σ.1.currentDir := by
  obtain ⟨p, hp⟩ := guardedSession_inStep h₀ hboot h
  rw [hp.table] at hlive hfolder hself hparent hfit ⊢
  have he : σ.2.storage.volume.LiveEntry p i := ⟨hp.existing, hi, hlive⟩
  obtain ⟨c, -, hc, -⟩ := hp.wellFormed.folder_chain he hfolder
  have hl : σ.2.storage.volume.Lists p i c := ⟨he, hfolder, hc⟩
  have hword := hp.toImage.word_of_live he
  have hnames := hp.toImage.names_of_live he
  obtain ⟨names, hpath⟩ := exists_pathTo hp.existing
  have hdown := hpath.step hl
  have hfitDown := hfit c _ hc hdown
  have hfitUp : (pathChars names).length ≤ 256 := by
    rw [pathChars_concat, List.length_append] at hfitDown
    omega
  refine ⟨names.length + 1, fun fuel print hfuel => ?_⟩
  obtain ⟨output, hdown⟩ := run_cd_child_fits print ⟨hword, hparent, hself⟩ hp hl hnames hdown
    (lt_of_eq_of_lt List.length_append hfuel) hfitDown
  have hchild := hp.toImage.inStep hl.existing_child σ.1
    ⟨pathChars (names ++ [nameChars (σ.2.storage.volume.table p i).name])⟩
  obtain ⟨output', hup⟩ := run_cd_parent_fits (s := ⟨σ.2.storage, output⟩) print hchild hp.existing
    (hp.linked hl).parentCluster (show StringN.buf ⟨ascii ".."⟩ = ascii ".." by decide) hpath
    (Nat.lt_of_succ_lt hfuel) hfitUp
  refine ⟨_, _, _, _, hdown, rfl, hc.symm, ?_, hup, rfl, hp.cluster.symm, rfl⟩
  rw [hc, directoryTable_number]
  rfl

theorem guardedSession_cd_folderA : ∃ (σ : Globals × System) (k : Fin 64) (c : Cell) (fuel : ℕ)
    (sh' sh'' : Globals) (s' s'' : System), σ.2.storage.volume.Lists 2 k c ∧
    run (cd fuel nameA true σ.1) σ.2 = .ok (sh', s') ∧ sh'.currentDirCluster = c.number ∧
    run (cd fuel ⟨ascii ".."⟩ true sh') s' = .ok (sh'', s'') ∧
    sh''.currentDirCluster = rootClusterNumber := by
  obtain ⟨σ₀, σ, k, c, hboot, hrun, hp, hmade⟩ := session_mkdir nameA_word (by decide)
  have hl := hmade.lists
  have hname : entryName (σ.2.storage.volume.table 2 k) = nameA.chars :=
    hmade.named.entryName nameA_word
  have hcurrent : entryName (σ.1.currentDir k) = nameA.chars := by rw [hp.table, hname]
  obtain ⟨depth, hcd⟩ := guardedSession_cd (recordRoot_image blankStorage) hboot hrun hl.slot
    (hp.table ▸ hl.live) (hp.table ▸ hl.folder) (by rw [hcurrent]; decide)
    (by rw [hcurrent]; decide) fun d names hd hpath => by
      rw [hp.table, hl.cluster] at hd
      obtain rfl := Cell.number_injective hd
      rw [hpath.unique hp.wellFormed (PathTo.root.step hl), ← (hp.tidy hl.toLiveEntry).entryName,
        hname]
      decide
  obtain ⟨sh', s', sh'', s'', hdown, -, hcluster, -, hup, -, hback, -⟩ :=
    hcd (depth + 1) true (Nat.lt_succ_self depth)
  rw [hcurrent] at hdown
  rw [hp.table, hl.cluster] at hcluster
  rw [hp.cluster] at hback
  exact ⟨σ, k, c, depth + 1, sh', sh'', s', s'', hl, hdown, hcluster, hup, hback⟩

/-- A folder called `.` is not entered. -/
theorem cd_dot_stays : ∃ (σ₀ σ : Globals × System) (k : Fin 64) (c : Cell),
    Boots (recordRoot (createFat32 blankStorage)) σ₀ ∧ Run GuardedCommand σ₀ σ ∧
    σ.1.currentDir = σ.2.storage.volume.table 2 ∧ σ.2.storage.volume.Lists 2 k c ∧
    Names ⟨ascii "."⟩ (σ.1.currentDir k) ∧ ∀ fuel, ∃ sh' s',
      run (cd fuel ⟨ascii "."⟩ true σ.1) σ.2 = .ok (sh', s') ∧ sh'.currentDirCluster ≠ c.number := by
  have hw : Word ⟨ascii "."⟩ := ⟨by decide, by decide, ne_zero_of_all (by decide)⟩
  obtain ⟨σ₀, σ, k, c, hboot, hrun, hp, hmade⟩ := session_mkdir hw (by decide)
  refine ⟨σ₀, σ, k, c, hboot, hrun, hp.table, hmade.lists, hp.table ▸ hmade.named, fun fuel => ?_⟩
  obtain ⟨output, hprint⟩ := run_printIf_changed true σ.1 σ.2
  refine ⟨_, _, (run_cd_here hw.buf fuel).trans (run_bind_ok hprint), fun heq => ?_⟩
  rw [hp.cluster] at heq
  exact hmade.lists.child_ne_root hp.wellFormed (Cell.number_injective heq).symm

def parentCluster (s : Storage) (cluster : UInt32) : UInt32 := (s.directoryTable cluster 1).cluster

/-- From the directory in cluster `c`, slot 1 leads to the root in `n` steps, over exactly the
directories that contain it. -/
structure Climbs (s : Storage) (c : Cell) (n : ℕ) : Prop where
  ends : (parentCluster s)^[n] c.number = rootClusterNumber
  first : ∀ k < n, (parentCluster s)^[k] c.number ≠ rootClusterNumber
  visits : ∀ number, (∃ k, 0 < k ∧ k ≤ n ∧ (parentCluster s)^[k] c.number = number) ↔
    ∃ d, number = Cell.number d ∧ s.volume.Existing d ∧ TransGen s.volume.Child d c

theorem Image.climbs_root {s : Storage} (h : Image s) : Climbs s 2 0 where
  ends := rfl
  first k hk := absurd hk (Nat.not_lt_zero k)
  visits number := by
    constructor
    · rintro ⟨k, hpos, hle, -⟩
      omega
    · rintro ⟨d, -, hd, hpath⟩
      obtain ⟨b, hdb, hb⟩ := TransGen.tail'_iff.mp hpath
      exact absurd hb (h.wellFormed.rooted.source (hd.trans hdb))

theorem Image.climbs_step {s : Storage} (h : Image s) {b c : Cell} {i : Fin 64} {n : ℕ}
    (hl : s.volume.Lists b i c) (hb : Climbs s b n) : Climbs s c (n + 1) := by
  have hup : parentCluster s c.number = b.number := by
    rw [parentCluster, directoryTable_number, (h.linked hl).parentCluster]
  have hiterate : ∀ k, (parentCluster s)^[k + 1] c.number = (parentCluster s)^[k] b.number := by
    intro k
    rw [Function.iterate_succ_apply, hup]
  refine ⟨by rw [hiterate, hb.ends], fun k hk => ?_, fun number => ?_⟩
  · cases k with
    | zero => exact fun heq => hl.child_ne_root h.wellFormed (Cell.number_injective heq)
    | succ k =>
      rw [hiterate]
      exact hb.first k (Nat.lt_of_succ_lt_succ hk)
  · constructor
    · rintro ⟨k, hpos, hle, hk⟩
      obtain ⟨k, rfl⟩ := Nat.exists_eq_add_of_le' hpos
      rw [hiterate] at hk
      rcases Nat.eq_zero_or_pos k with rfl | hpos'
      · exact ⟨b, hk.symm, hl.existing, .single hl.child⟩
      · obtain ⟨d, hd, hex, hpath⟩ := (hb.visits number).mp ⟨k, hpos', by omega, hk⟩
        exact ⟨d, hd, hex, hpath.tail hl.child⟩
    · rintro ⟨d, rfl, hd, hpath⟩
      obtain ⟨y, hdy, hy⟩ := TransGen.tail'_iff.mp hpath
      obtain rfl := h.wellFormed.rooted.unique (hd.trans hdy) hl.existing hy hl.child
      rcases reflTransGen_iff_eq_or_transGen.mp hdy with rfl | hdy
      · exact ⟨1, Nat.one_pos, by omega, hiterate 0⟩
      · obtain ⟨k, hpos, hle, hk⟩ := (hb.visits d.number).mpr ⟨d, rfl, hd, hdy⟩
        exact ⟨k + 1, Nat.succ_pos k, by omega, by rw [hiterate, hk]⟩

theorem Image.climbs {s : Storage} (h : Image s) {c : Cell} (hc : s.volume.Existing c) :
    ∃ n, Climbs s c n := by
  induction hc with
  | refl => exact ⟨0, h.climbs_root⟩
  | tail hb hbc ih =>
    obtain ⟨n, hn⟩ := ih
    obtain ⟨i, hi, hlive, hfolder, hc⟩ := hbc
    exact ⟨n + 1, h.climbs_step ⟨⟨hb, hi, hlive⟩, hfolder, hc⟩ hn⟩

/-- With enough fuel the program returns. -/
def Ends {α : Type} (p : ℕ → Prog α) (s : System) : Prop :=
  ∃ depth, ∀ fuel, depth < fuel → ∃ r, run (p fuel) s = .ok r

/-- The path of the directory fits into the buffer of a `StringN`. -/
def ShortPath (v : Volume) (c : Cell) : Prop :=
  ∀ names, PathTo v c names → (pathChars names).length ≤ 256

/-- A directory has a shorter path than those in it. -/
theorem ShortPath.above {v : Volume} {d c : Cell} {i : Fin 64} (h : ShortPath v c)
    (hl : v.Lists d i c) : ShortPath v d := by
  intro names hpath
  have hfit := h _ (hpath.step hl)
  rw [pathChars_concat, List.length_append] at hfit
  exact le_trans (Nat.le_add_right _ _) hfit

theorem shortPath_root {v : Volume} (hv : v.WellFormed) : ShortPath v 2 := by
  intro names hpath
  rw [hpath.unique hv .root]
  decide

/-- Path building ends with a result exactly when the path fits; a longer one is written behind
its buffer. -/
theorem Image.createPathRecursive_ends_iff {s : System} (h : Image s.storage) {c : Cell}
    (hc : s.storage.volume.Existing c) :
    Ends (createPathRecursive · c.number) s ↔ ShortPath s.storage.volume c := by
  obtain ⟨names, hpath⟩ := exists_pathTo hc
  have hbuild (fuel : ℕ) (hfuel : names.length < fuel) :=
    run_createPathRecursive h.wellFormed h.linked hpath hfuel
  constructor
  · rintro ⟨depth, hends⟩ names' hpath'
    rw [hpath'.unique h.wellFormed hpath]
    obtain ⟨r, hr⟩ := hends (max depth names.length + 1) (by omega)
    by_contra hlong
    have hfault := hbuild (max depth names.length + 1) (by omega)
    rw [if_neg hlong] at hfault
    cases hr.symm.trans hfault
  · intro hshort
    exact ⟨names.length, fun fuel hfuel =>
      ⟨_, (hbuild fuel hfuel).trans (if_pos (hshort names hpath))⟩⟩

theorem Image.arrive_ends {s : System} (h : Image s.storage) (print : Bool) {d : Cell}
    (hd : s.storage.volume.Existing d) (hshort : ShortPath s.storage.volume d) (sh : Globals) :
    Ends (fun fuel => arrive fuel print s.storage.volume d sh) s := by
  obtain ⟨names, hpath⟩ := exists_pathTo hd
  refine ⟨names.length, fun fuel hfuel => ?_⟩
  have harrive := run_arrive sh print h hpath hfuel
  rw [if_pos (hshort names hpath)] at harrive
  obtain ⟨output, harrive⟩ := harrive
  exact ⟨_, harrive⟩

theorem Ends.congr {α : Type} {p q : ℕ → Prog α} {s : System}
    (heq : ∀ fuel, run (p fuel) s = run (q fuel) s) (h : Ends q s) : Ends p s := by
  obtain ⟨depth, h⟩ := h
  refine ⟨depth, fun fuel hfuel => ?_⟩
  rw [heq]
  exact h fuel hfuel

theorem Ends.of_print {q : Prog Unit} {s t : System} (sh : Globals)
    (hprint : run q s = .ok ((), t)) : Ends (fun _ => q >>= fun _ => pure sh) s :=
  ⟨0, fun _ _ => ⟨_, run_bind_ok hprint⟩⟩

/-- The current directory and those in it have paths that fit, so `cd` ends. -/
theorem InStep.cd_ends {sh : Globals} {s : System} {p : Cell} {folder : StringN} (hw : Word folder)
    (h : InStep sh s.storage p) (print : Bool) (hhere : ShortPath s.storage.volume p)
    (hbelow : ∀ i c, s.storage.volume.Lists p i c → ShortPath s.storage.volume c) :
    Ends (fun fuel => cd fuel folder print sh) s := by
  by_cases hparent : folder.chars = ascii ".."
  · obtain ⟨d, hd, hshort, hcluster⟩ : ∃ d, s.storage.volume.Existing d ∧
        ShortPath s.storage.volume d ∧ (s.storage.volume.table p 1).cluster = d.number := by
      rcases h.existing.listed with rfl | ⟨d, i, hl⟩
      · exact ⟨2, .refl, hhere, h.rootLinks.parentCluster⟩
      · exact ⟨d, hl.existing, hhere.above hl, (h.linked hl).parentCluster⟩
    exact (h.toImage.arrive_ends print hd hshort sh).congr
      fun fuel => run_cd_parent h hd hcluster (hw.buf.trans hparent) fuel
  by_cases hself : folder.chars = ascii "."
  · obtain ⟨output, hprint⟩ := run_printIf_changed print sh s
    exact (Ends.of_print sh hprint).congr fun fuel => run_cd_here (hw.buf.trans hself) fuel
  have hf : Plain folder := ⟨hw, hparent, hself⟩
  have hslot := h.toImage.cdSlot_eq h.existing hw
  rw [← h.table] at hslot
  cases hfind : findEntry folder.buf sh.currentDir with
  | none =>
    have hcd : ∀ fuel, cd fuel folder print sh =
        printIf print (puts (ascii "cd error: Directory not found!") biosLightRed) >>=
          fun _ => pure sh := by
      intro fuel
      rw [cd_plain hf, cdFolder, hslot, hfind]
    obtain ⟨t, hprint⟩ : ∃ t, run (printIf print
        (puts (ascii "cd error: Directory not found!") biosLightRed)) s = .ok ((), t) := by
      cases print with
      | true => exact ⟨_, rfl⟩
      | false => exact ⟨_, rfl⟩
    exact (Ends.of_print sh hprint).congr fun fuel => by rw [hcd]
  | some i =>
    have hfound := hfind
    rw [h.table, h.toImage.findEntry_eq_some h.existing hw] at hfound
    by_cases hfolder : (s.storage.volume.table p i).IsFolder
    · have he : s.storage.volume.LiveEntry p i := ⟨h.existing, hfound.1, hfound.2.live⟩
      obtain ⟨c, -, hc, -⟩ := h.wellFormed.folder_chain he hfolder
      have hl : s.storage.volume.Lists p i c := ⟨he, hfolder, hc⟩
      exact (h.toImage.arrive_ends print hl.existing_child (hbelow i c hl) sh).congr
        fun fuel => run_cd_child hf h hl hfound.2 fuel
    · have hcd : ∀ fuel, cd fuel folder print sh =
          puts (ascii "cd error: Not a directory!") biosLightRed >>= fun _ => pure sh := by
        intro fuel
        rw [cd_plain hf, cdFolder, hslot, hfind]
        dsimp only
        rw [h.table, if_pos hfolder]
      exact (Ends.of_print sh rfl).congr fun fuel => by rw [hcd]

theorem InStep.prompt_ends {sh : Globals} {s : System} {p : Cell} (h : InStep sh s.storage p)
    (hhere : ShortPath s.storage.volume p) : Ends (fun fuel => shellPrintPrompt fuel sh) s := by
  obtain ⟨names, hpath⟩ := exists_pathTo h.existing
  have hself : (sh.currentDir 0).cluster = p.number := by rw [h.table, (h.toImage.self h.existing).2]
  refine ⟨names.length, fun fuel hfuel => ?_⟩
  have hfit := hhere names hpath
  have hbuild := run_createPathRecursive h.wellFormed h.linked hpath hfuel
  rw [if_pos hfit] at hbuild
  dsimp only
  rw [shellPrintPrompt, createPath, hself]
  have hbuf : (StringN.buf ⟨pathChars names⟩).length ≤ 256 :=
    le_trans (List.takeWhile_prefix _).length_le hfit
  have happend : StringN.create.appendstr (StringN.buf ⟨pathChars names⟩) =
      .ok ⟨[] ++ StringN.buf ⟨pathChars names⟩⟩ := by
    refine StringN.appendstr_ok ?_
    rw [StringN.create, StringN.len_mk, List.length_nil, Nat.zero_add]
    exact hbuf
  obtain ⟨t, hprint⟩ : ∃ t, run (printPrompt { sh with currentDirPath := ⟨pathChars names⟩ }) s =
      .ok ((), t) := by
    rw [printPrompt, happend]
    exact ⟨_, rfl⟩
  have hcreate : run (createPathRecursive fuel p.number >>= fun path =>
      pure { sh with currentDirPath := path }) s =
      .ok ({ sh with currentDirPath := ⟨pathChars names⟩ }, s) := run_bind_ok hbuild
  exact ⟨_, (run_bind_ok hcreate).trans (run_bind_ok hprint)⟩

/-- In every guarded session the parent links lead from every directory to the root, over exactly
the directories that contain it, and the path of a directory is built exactly when it fits into its
buffer. Where the paths of the current directory and of those in it fit, `cd` and the prompt end. -/
theorem guardedSession_paths {s₀ : Storage} (h₀ : Image s₀) {σ₀ σ : Globals × System}
    (hboot : Boots s₀ σ₀) (h : Run GuardedCommand σ₀ σ) :
    (∀ c, σ.2.storage.volume.Existing c → (∃ n, Climbs σ.2.storage c n) ∧
      (Ends (createPathRecursive · c.number) σ.2 ↔ ShortPath σ.2.storage.volume c)) ∧
    ∃ p, σ.1.currentDirCluster = Cell.number p ∧ σ.2.storage.volume.Existing p ∧
      (ShortPath σ.2.storage.volume p → Ends (fun fuel => shellPrintPrompt fuel σ.1) σ.2 ∧
        ((∀ i c, σ.2.storage.volume.Lists p i c → ShortPath σ.2.storage.volume c) →
          ∀ folder, Word folder → Ends (fun fuel => cd fuel folder true σ.1) σ.2)) := by
  obtain ⟨p, hp⟩ := guardedSession_inStep h₀ hboot h
  refine ⟨fun c hc => ⟨hp.toImage.climbs hc, hp.toImage.createPathRecursive_ends_iff hc⟩,
    p, hp.cluster, hp.existing, fun hhere => ⟨hp.prompt_ends hhere, fun hbelow folder hw => ?_⟩⟩
  exact hp.cd_ends hw true hhere hbelow

theorem guardedSession_paths_folderA : ∃ (σ : Globals × System) (k : Fin 64) (c : Cell) (n : ℕ),
    σ.2.storage.volume.Lists 2 k c ∧ Climbs σ.2.storage c n ∧
    Ends (createPathRecursive · c.number) σ.2 ∧
    Ends (fun fuel => shellPrintPrompt fuel σ.1) σ.2 ∧
    Ends (fun fuel => cd fuel nameA true σ.1) σ.2 := by
  obtain ⟨σ₀, σ, k, c, hboot, hrun, hp, hmade⟩ := session_mkdir nameA_word (by decide)
  have hl := hmade.lists
  obtain ⟨hpaths, p, hcluster, -, hends⟩ :=
    guardedSession_paths (recordRoot_image blankStorage) hboot hrun
  obtain rfl : p = 2 := Cell.number_injective (hcluster.symm.trans hp.cluster)
  have hroot : ShortPath σ.2.storage.volume 2 := shortPath_root hp.wellFormed
  -- every path in the root is that of a folder with a name of at most eight characters
  have hbelow : ∀ i c, σ.2.storage.volume.Lists 2 i c → ShortPath σ.2.storage.volume c := by
    intro i c hl names hpath
    have hname := nameChars_length (σ.2.storage.volume.table 2 i).name
    rw [hpath.unique hp.wellFormed (PathTo.root.step hl), pathChars_concat, List.length_append,
      List.length_append]
    have hself : (pathChars []).length = 2 := by decide
    have hslash : (ascii "/").length = 1 := by decide
    omega
  obtain ⟨⟨n, hn⟩, hbuild⟩ := hpaths c hl.existing_child
  obtain ⟨hprompt, hcd⟩ := hends hroot
  exact ⟨σ, k, c, n, hl, hn, hbuild.mpr (hbelow k c hl), hprompt, hcd hbelow nameA nameA_word⟩

/-- On the disk as it is formatted the shell never builds its first path. With the root's cluster
recorded, `mkdir a`, `cd a` and `mv a a` lead to a prompt that never comes. -/
theorem paths_diverge :
    (∀ fuel sh output,
      run (loadRoot fuel sh) ⟨createFat32 blankStorage, output⟩ = .error .diverges) ∧
    ∃ σ₀ σ sh' s', Boots (recordRoot (createFat32 blankStorage)) σ₀ ∧ Run GuardedCommand σ₀ σ ∧
      run (mv nameA nameA σ.1) σ.2 = .ok (sh', s') ∧
      ∀ fuel, run (shellPrintPrompt fuel sh') s' = .error .diverges := by
  refine ⟨loadRoot_formatted_diverges, ?_⟩
  obtain ⟨σ₀, σ, k, c, hboot, hrun, hp, hmade⟩ := session_mkdir nameA_word (by decide)
  have hl := hmade.lists
  have hlinks := hp.linked hl
  have hf : Plain nameA := ⟨nameA_word, by decide, by decide⟩
  have hfit : (pathChars ([] ++ [nameChars (σ.2.storage.volume.table 2 k).name])).length ≤ 256 := by
    rw [hmade.named.name, nameA_word.nameChars]
    decide
  obtain ⟨output, hcd⟩ := run_cd_child_fits true hf hp hl hmade.named (PathTo.root.step hl)
    (show 1 < 2 by decide) hfit
  have hcmd : GuardedCommand σ (.cd nameA) (_, ⟨σ.2.storage, output⟩) :=
    ⟨nameA_word, by rintro _ ⟨⟩, by rintro _ _ ⟨⟩, 2, hcd⟩
  have hown : Names nameA (σ.2.storage.volume.table c 0) := by
    refine ⟨hmade.fresh.1, ?_, hlinks.selfExt⟩
    rw [hlinks.selfName, hmade.named.name]
    exact nameA_word.tidy.padded
  obtain ⟨sh', s', hmv, hprompt⟩ := run_mv_ownName (s := ⟨σ.2.storage, output⟩) nameA_word
    (hp.toImage.inStep hl.existing_child σ.1 _) (hl.child_ne_root hp.wellFormed) hown
    (hmade.fresh.not_live (by decide))
  exact ⟨σ₀, _, sh', s', hboot, hrun.tail hcmd, hmv, hprompt⟩

end Os2024.Shell
