import Os2024.Shell.Moves

/-! # Moves outside the guard

A folder that is moved into itself is lost with all that is below it. A directory
that is named inside itself, as source and as destination, becomes its own parent,
and building its path never ends.
-/

namespace Os2024.Shell
open Library.PackedLayout Library.CallTrees Relation FileSystem FileSystem.Volume

section Unguarded
variable {sh : Globals} {s : System} {p : Cell} {src dest : StringN}

theorem run_mv_folders (hsrc : Word src) (hdest : Word dest) (h : InStep sh s.storage p)
    {i j : Fin 64} {c d : Cell} (hi : entryAt (s.storage.volume.table p) src = some i)
    (hfolder : (s.storage.volume.table p i).IsFolder)
    (hc : (s.storage.volume.table p i).cluster = c.number)
    (hj : entryAt (s.storage.volume.table p) dest = some j)
    (hfolder' : (s.storage.volume.table p j).IsFolder)
    (hd : (s.storage.volume.table p j).cluster = d.number) : run (mv src dest sh) s =
      run (mvMove src dest (some (s.storage.volume.table c)) (s.storage.volume.table d) sh) s := by
  obtain ⟨hle, hpos⟩ := hsrc.accepted hdest
  have hread : ∀ {str : StringN} {k : Fin 64} {b : Cell},
      entryAt (s.storage.volume.table p) str = some k → (s.storage.volume.table p k).IsFolder →
      (s.storage.volume.table p k).cluster = b.number →
      readDirectory (namedRequest (padName str.chars) sh.currentDirCluster clusterSize) s.storage =
        (0, some (s.storage.volume b)) := by
    intro str k b hk hf hb
    have hlook : lookup (s.storage.volume.table p)
        (namedRequest (padName str.chars) sh.currentDirCluster clusterSize) = some k := hk
    exact readDirectory_folder h.cluster hlook hf hb (show (32 : UInt32) ≤ clusterSize by decide)
  rw [mv, if_neg hle, if_neg hpos, run_bind_ok (run_readDirectoryCall _ _), hread hi hfolder hc]
  dsimp only
  rw [if_neg (by decide), if_pos rfl, mvTo, run_bind_ok (run_readDirectoryCall _ _),
    hread hj hfolder' hd]
  rfl

/-- A folder moved into itself is not among the live entries any more. -/
theorem run_mv_itself (hsrc : Word src) (h : InStep sh s.storage p) {i : Fin 64} {c : Cell}
    (hl : s.storage.volume.Lists p i c) (hn : Names src (s.storage.volume.table p i)) :
    ∃ sh' s', run (mv src src sh) s = .ok (sh', s') ∧
      ∀ d j, s'.storage.volume.LiveEntry d j → (s'.storage.volume.table d j).cluster ≠ c.number := by
  have hat := h.toImage.entryAt_of_names h.existing hl.slot hn
  have hfind := (h.toImage.findEntry_eq_some h.existing hsrc).mpr ⟨hl.slot, hn⟩
  obtain ⟨output, hrun⟩ := run_mvMove h.cluster h.table hfind src
    (some (s.storage.volume.table c)) (s.storage.volume.table c)
  refine ⟨_, _, (run_mv_folders hsrc hsrc h hat hl.folder hl.cluster hat hl.folder
    hl.cluster).trans hrun, ?_⟩
  have hcp : c ≠ p := (h.wellFormed.rooted.ne_of_edge h.existing hl.child).symm
  have hself := (h.linked hl).selfCluster
  -- the last write undoes the one before it
  have hvol : (moveStorage s.storage p i (s.storage.volume.table c)
      (some (s.storage.volume.table c))).volume =
      Function.update (Function.update s.storage.volume p (tableLayout (Function.update
        (s.storage.volume.table p) i .zero))) c (tableLayout
          (reparent (s.storage.volume.table c) (s.storage.volume.table c 0))) := by
    rw [moveStorage, putEntry_zero, hself, volume_writeClusters, volume_writeClusters,
      volume_writeClusters, Function.update_idem]
  -- behind the link slots only the source has changed
  have htable : ∀ b k, 2 ≤ k → (moveStorage s.storage p i (s.storage.volume.table c)
      (some (s.storage.volume.table c))).volume.table b k =
      if (b, k) = (p, i) then .zero else s.storage.volume.table b k := by
    intro b k hk
    have hk1 : k ≠ 1 := by
      rintro rfl
      exact absurd hk (by decide)
    rw [hvol, Volume.table]
    by_cases hbc : b = c
    · subst b
      rw [Function.update_self, Equiv.symm_apply_apply, reparent, Function.update_of_ne hk1,
        if_neg fun heq => hcp (Prod.mk.inj heq).1]
    · rw [Function.update_of_ne hbc]
      by_cases hbp : b = p
      · subst b
        rw [Function.update_self, Equiv.symm_apply_apply, Function.update_apply]
        by_cases hki : k = i
        · rw [if_pos hki, if_pos (by rw [hki])]
        · rw [if_neg hki, if_neg fun heq => hki (Prod.mk.inj heq).2]
      · rw [Function.update_of_ne hbp, if_neg fun heq => hbp (Prod.mk.inj heq).1, ← Volume.table]
  have hold : ∀ {b k}, 2 ≤ k → ((moveStorage s.storage p i (s.storage.volume.table c)
      (some (s.storage.volume.table c))).volume.table b k).Live → (b, k) ≠ (p, i) := by
    intro b k hk hlive heq
    rw [htable b k hk, if_pos heq] at hlive
    exact absurd hlive (by decide)
  have hexisting : ∀ {b}, (moveStorage s.storage p i (s.storage.volume.table c)
      (some (s.storage.volume.table c))).volume.Existing b → s.storage.volume.Existing b := by
    refine fun hb => ReflTransGen.mono (fun a b => ?_) _ _ hb
    rintro ⟨k, hk, hlive, hfolder, hcluster⟩
    have hne := hold hk hlive
    rw [htable a k hk, if_neg hne] at hlive hfolder hcluster
    exact ⟨k, hk, hlive, hfolder, hcluster⟩
  rintro d j ⟨hd, hj, hlive⟩ hcluster
  have hne := hold hj hlive
  rw [htable d j hj, if_neg hne] at hlive hcluster
  obtain ⟨rfl, rfl⟩ := h.wellFormed.cluster_unique ⟨hexisting hd, hj, hlive⟩ hl.toLiveEntry
    (hcluster.trans hl.cluster.symm)
  exact hne rfl

/-- A path without an end above a directory is one of the directory itself. -/
theorem createPathRecursive_diverges {n : UInt32} {fuel : ℕ} (hn : n ≠ rootClusterNumber)
    (hlen : (entryName (s.storage.directoryTable n 0)).length < 256)
    (h : run (createPathRecursive fuel (s.storage.directoryTable n 1).cluster) s =
      .error .diverges) : run (createPathRecursive (fuel + 1) n) s = .error .diverges := by
  have hread : run (readTable n) s = .ok (s.storage.directoryTable n, s) := rfl
  have hown : StringN.create.appendstr (entryName (s.storage.directoryTable n 0)) =
      .ok ⟨entryName (s.storage.directoryTable n 0)⟩ :=
    StringN.appendstr_ok (by rw [StringN.create, StringN.len_mk, List.length_nil]; omega)
  have hslash : StringN.appendchar ⟨entryName (s.storage.directoryTable n 0)⟩ '/'.toUInt8 =
      .ok ⟨entryName (s.storage.directoryTable n 0) ++ ['/'.toUInt8]⟩ := if_pos hlen
  rw [createPathRecursive, if_neg hn, run_bind_ok hread, hown, run_bind_ok (run_ofExcept _), hslash,
    run_bind_ok (run_ofExcept _)]
  exact run_bind_error h

/-- The path of a directory that is its own parent has no end. -/
theorem createPathRecursive_selfParent (hp : p ≠ 2)
    (hlen : (entryName (s.storage.volume.table p 0)).length ≤ 8)
    (hparent : (s.storage.volume.table p 1).cluster = p.number) (fuel : ℕ) :
    run (createPathRecursive fuel p.number) s = .error .diverges := by
  induction fuel with
  | zero => rfl
  | succ fuel ih =>
    rw [← directoryTable_number] at hlen hparent
    refine createPathRecursive_diverges (fun heq => hp (Cell.number_injective heq))
      (lt_of_le_of_lt hlen (by decide)) ?_
    rw [hparent]
    exact ih

/-- A directory that is named inside itself, as source and as destination, becomes its own
parent, unless an entry in its last slot is doubled before. -/
theorem run_mv_ownName (hsrc : Word src) (h : InStep sh s.storage p) (hp : p ≠ 2)
    (hn : Names src (s.storage.volume.table p 0)) (hlast : ¬(s.storage.volume.table p 63).Live) :
    ∃ sh' s', run (mv src src sh) s = .ok (sh', s') ∧
      ∀ fuel, run (shellPrintPrompt fuel sh') s' = .error .diverges := by
  have hat : entryAt (s.storage.volume.table p) src = some 0 :=
    lookup_zero hn.live ⟨hn.name, hn.ext⟩
  obtain ⟨hfolder, hself⟩ := h.toImage.self h.existing
  have htake : takeEntry src.buf sh.currentDir = (.zero, s.storage.volume.table p) := by
    have hfind : findEntry src.buf (s.storage.volume.table p) = none := by
      rw [h.toImage.findEntry_eq h.existing hsrc, hat]
      exact Option.filter_some_neg (decide_eq_false (by decide))
    rw [h.table, takeEntry, hfind]
    exact congrArg (·, _) (h.wellFormed.free_zero h.existing 63 hlast)
  let t := s.storage.volume.table p
  let s₁ := ((s.storage.writeClusters p.number (tableLayout t)).writeClusters p.number
    (tableLayout (putEntry .zero t))).writeClusters p.number (tableLayout (reparent t (t 0)))
  obtain ⟨output, hrun⟩ : ∃ output, run (mvMove src src (some t) t sh) s =
      .ok ({ sh with currentDir := s₁.volume.table p }, ⟨s₁, output⟩) := by
    have hcluster : (putEntry .zero t 0).cluster = p.number := by rw [putEntry_zero, hself]
    rw [mvMove, htake]
    dsimp only
    rw [run_bind_ok (run_writeTable _ _ _), run_bind_ok (run_writeTable _ _ _), hcluster,
      putEntry_zero, h.cluster, hself, run_bind_ok (run_writeTable _ _ _)]
    obtain ⟨output, hdone⟩ := run_printDone "mv: File/folder successfully moved to " src.chars
      ⟨s₁, s.output⟩
    exact ⟨output, (run_bind_ok hdone).trans (run_refresh rfl)⟩
  have htable : s₁.volume.table p = reparent t (t 0) := by
    rw [Volume.table, volume_writeClusters, Function.update_self, Equiv.symm_apply_apply]
  have hzero : reparent t (t 0) 0 = t 0 := Function.update_of_ne (by decide) _ _
  refine ⟨_, _, (run_mv_folders hsrc hsrc h hat hfolder hself hat hfolder hself).trans hrun,
    fun fuel => run_bind_error (run_bind_error ?_)⟩
  change run (createPathRecursive fuel (s₁.volume.table p 0).cluster) ⟨s₁, output⟩ = _
  rw [htable, hzero, hself]
  refine createPathRecursive_selfParent hp ?_ ?_ fuel
  · rw [htable, hzero]
    exact (congrArg List.length (hn.entryName hsrc)).trans_le hsrc.le
  · rw [htable, reparent, Function.update_self]
    exact hself

end Unguarded

end Os2024.Shell
