import Os2024.Shell.Image

/-! # The simple commands

A command other than `mv` and `find` goes through at most one call of the file system,
whose effect is known, and then reads its table again.
-/

namespace Os2024.Shell
open Library.PackedLayout Library.CallTrees Library.Runs FileSystem FileSystem.Volume

section Cd
variable {sh : Globals} {s : System} {p : Cell} {folder : StringN} {print : Bool}

def arrive (fuel : ℕ) (print : Bool) (v : Volume) (d : Cell) (sh : Globals) : Prog Globals := do
  let path ← createPathRecursive fuel d.number
  printIf print (printChanged (sh.enter v d path))
  return sh.enter v d path

theorem run_cd_up (h : Image s.storage) {d : Cell} (hd : s.storage.volume.Existing d)
    (hparent : (sh.currentDir 1).cluster = d.number) (hfolder : folder.buf = ascii "..")
    (fuel : ℕ) : run (cd fuel folder print sh) s =
      run (arrive fuel print s.storage.volume d sh) s := by
  rw [cd, if_pos (strcmp_iff.mpr hfolder), arrive]
  have hgo : run (cdParent fuel sh) s = run (createPathRecursive fuel d.number >>= fun path =>
      pure (sh.enter s.storage.volume d path)) s := by
    rw [cdParent, hparent, run_bind_ok (run_readTable d s)]
    exact run_createPath (h.self hd).2 rfl
  refine (Program.run_bind_congr hgo).trans ?_
  rw [Program.bind_assoc]
  rfl

theorem run_cd_parent (h : InStep sh s.storage p) {d : Cell} (hd : s.storage.volume.Existing d)
    (hparent : (s.storage.volume.table p 1).cluster = d.number) (hfolder : folder.buf = ascii "..")
    (fuel : ℕ) : run (cd fuel folder print sh) s =
      run (arrive fuel print s.storage.volume d sh) s :=
  run_cd_up h.toImage hd (by rw [h.table, hparent]) hfolder fuel

theorem run_cd_here (hfolder : folder.buf = ascii ".") (fuel : ℕ) :
    run (cd fuel folder print sh) s =
      run (printIf print (printChanged sh) >>= fun _ => pure sh) s := by
  have hne : ¬strcmp folder.buf (ascii "..") := by
    rw [strcmp_iff, hfolder]
    decide
  rw [cd, if_neg hne, if_pos (strcmp_iff.mpr hfolder)]

structure Plain (folder : StringN) : Prop extends Word folder where
  ne_parent : folder.chars ≠ ascii ".."
  ne_self : folder.chars ≠ ascii "."

theorem cd_plain (hf : Plain folder) (fuel : ℕ) :
    cd fuel folder print sh = cdFolder fuel folder print sh := by
  have hparent : ¬strcmp folder.buf (ascii "..") := by
    rw [strcmp_iff, hf.buf]
    exact hf.ne_parent
  have hself : ¬strcmp folder.buf (ascii ".") := by
    rw [strcmp_iff, hf.buf]
    exact hf.ne_self
  rw [cd, if_neg hparent, if_neg hself]

/-- The shell finds a folder of that name in the table it holds, which may be an old one, and the
kernel finds one on the disk. -/
theorem run_cd_named (hf : Plain folder) (h : Image s.storage) (hcluster : sh.currentDirCluster = p.number)
    {i j : Fin 64} {c : Cell} (hslot : cdSlot folder sh.currentDir = some i)
    (hfolder : (sh.currentDir i).IsFolder) (hl : s.storage.volume.Lists p j c)
    (hn : Names folder (s.storage.volume.table p j)) (fuel : ℕ) :
    run (cd fuel folder print sh) s = run (arrive fuel print s.storage.volume c sh) s := by
  have hread : readDirectory (namedRequest (padName folder.chars) sh.currentDirCluster 2048)
      s.storage = (0, some (s.storage.volume c)) := by
    refine readDirectory_folder hcluster ?_ hl.folder hl.cluster
      (show (32 : UInt32) ≤ 2048 by decide)
    exact h.entryAt_of_names hl.existing hl.slot hn
  have hgo : run (cdEnter fuel folder sh) s = run (createPathRecursive fuel c.number >>=
      fun path => pure (sh.enter s.storage.volume c path)) s := by
    have hcall : run (readDirectoryCall (namedRequest (padName folder.chars) sh.currentDirCluster
        2048)) s = .ok ((0, some (s.storage.volume c)), s) := by
      rw [← hread]
      exact Program.run_perform _
    rw [cdEnter, run_bind_ok hcall]
    exact run_createPath (h.self hl.existing_child).2 rfl
  rw [cd_plain hf, cdFolder, hslot]
  dsimp only
  rw [if_neg (not_not.mpr hfolder), arrive]
  refine (Program.run_bind_congr hgo).trans ?_
  rw [Program.bind_assoc]
  rfl

theorem run_cd_child (hf : Plain folder) (h : InStep sh s.storage p) {i : Fin 64} {c : Cell}
    (hl : s.storage.volume.Lists p i c) (hn : Names folder (s.storage.volume.table p i))
    (fuel : ℕ) : run (cd fuel folder print sh) s =
      run (arrive fuel print s.storage.volume c sh) s := by
  have hslot : cdSlot folder sh.currentDir = some i := by
    rw [h.table, h.toImage.cdSlot_eq h.existing hf.toWord]
    exact (h.toImage.findEntry_eq_some h.existing hf.toWord).mpr ⟨hl.slot, hn⟩
  exact run_cd_named hf h.toImage h.cluster hslot (by rw [h.table]; exact hl.folder) hl hn fuel

theorem run_printIf_changed (print : Bool) (sh : Globals) (s : System) : ∃ output,
    run (printIf print (printChanged sh)) s = .ok ((), ⟨s.storage, output⟩) := by
  cases print with
  | true => exact ⟨_, rfl⟩
  | false => exact ⟨s.output, rfl⟩

theorem run_arrive (sh : Globals) (print : Bool) (h : Image s.storage) {d : Cell}
    {names : List (List UInt8)} (hpath : PathTo s.storage.volume d names) {fuel : ℕ} (hfuel : names.length < fuel) :
    if (pathChars names).length ≤ 256 then
      ∃ output, run (arrive fuel print s.storage.volume d sh) s =
        .ok (sh.enter s.storage.volume d ⟨pathChars names⟩, ⟨s.storage, output⟩)
    else run (arrive fuel print s.storage.volume d sh) s = .error .outOfBounds := by
  have hbuild := run_createPathRecursive h.wellFormed h.linked hpath hfuel
  split_ifs at hbuild ⊢ with hfit
  · obtain ⟨output, hprint⟩ := run_printIf_changed print
      (sh.enter s.storage.volume d ⟨pathChars names⟩) s
    exact ⟨output, (run_bind_ok hbuild).trans (run_bind_ok hprint)⟩
  · exact run_bind_error hbuild

theorem run_arrive_quiet (sh : Globals) (h : Image s.storage) {d : Cell}
    {names : List (List UInt8)} (hpath : PathTo s.storage.volume d names) {fuel : ℕ}
    (hfuel : names.length < fuel) (hfit : (pathChars names).length ≤ 256) :
    run (arrive fuel false s.storage.volume d sh) s =
      .ok (sh.enter s.storage.volume d ⟨pathChars names⟩, s) := by
  have hbuild := run_createPathRecursive h.wellFormed h.linked hpath hfuel
  rw [if_pos hfit] at hbuild
  exact run_bind_ok hbuild

section Fits
variable {fuel : ℕ} {names : List (List UInt8)}

theorem run_cd_child_fits (print : Bool) (hf : Plain folder) (h : InStep sh s.storage p) {i : Fin 64}
    {c : Cell} (hl : s.storage.volume.Lists p i c) (hn : Names folder (s.storage.volume.table p i))
    (hpath : PathTo s.storage.volume c names) (hfuel : names.length < fuel)
    (hfit : (pathChars names).length ≤ 256) :
    ∃ output, run (cd fuel folder print sh) s =
      .ok (sh.enter s.storage.volume c ⟨pathChars names⟩, ⟨s.storage, output⟩) := by
  have harrive := run_arrive sh print h.toImage hpath hfuel
  rw [if_pos hfit] at harrive
  obtain ⟨output, harrive⟩ := harrive
  exact ⟨output, (run_cd_child hf h hl hn fuel).trans harrive⟩

theorem run_cd_parent_fits (print : Bool) (h : InStep sh s.storage p) {d : Cell}
    (hd : s.storage.volume.Existing d) (hparent : (s.storage.volume.table p 1).cluster = d.number)
    (hfolder : folder.buf = ascii "..") (hpath : PathTo s.storage.volume d names)
    (hfuel : names.length < fuel) (hfit : (pathChars names).length ≤ 256) :
    ∃ output, run (cd fuel folder print sh) s =
      .ok (sh.enter s.storage.volume d ⟨pathChars names⟩, ⟨s.storage, output⟩) := by
  have harrive := run_arrive sh print h.toImage hpath hfuel
  rw [if_pos hfit] at harrive
  obtain ⟨output, harrive⟩ := harrive
  exact ⟨output, (run_cd_parent h hd hparent hfolder fuel).trans harrive⟩

end Fits

theorem run_arrive_ok {fuel : ℕ} {v : Volume} {d : Cell} {sh' : Globals} {s' : System}
    (h : run (arrive fuel print v d sh) s = .ok (sh', s')) :
    s'.storage = s.storage ∧ ∃ path, sh' = sh.enter v d path := by
  obtain ⟨path, s₁, hpath, h⟩ := of_run_bind h
  obtain ⟨_, s₂, hprint, h⟩ := of_run_bind h
  obtain ⟨rfl, rfl⟩ := Prod.mk.inj (Except.ok.inj h)
  have hquiet := storage_of_quiet (printIf_quiet (printDone_quiet _ _)) hprint
  rw [hquiet, system_of_silent (createPathRecursive_silent _ _) hpath]
  exact ⟨rfl, path, rfl⟩

/-- After a `cd` that returns, the shell is where it was or has arrived in a directory. -/
theorem run_cd_ok {fuel : ℕ} {sh' : Globals} {s' : System} (hw : Word folder)
    (h : InStep sh s.storage p) (hrun : run (cd fuel folder print sh) s = .ok (sh', s')) :
    s'.storage = s.storage ∧ (sh' = sh ∨ ∃ d path, s.storage.volume.Existing d ∧
      sh' = sh.enter s.storage.volume d path) := by
  have hstay : ∀ {q : Prog Unit}, q.Uses Syscall.Quiet →
      run (q >>= fun _ => pure sh) s = .ok (sh', s') → s'.storage = s.storage ∧ sh' = sh := by
    intro q hq hrun
    obtain ⟨_, s₁, hprint, hrun⟩ := of_run_bind hrun
    obtain ⟨rfl, rfl⟩ := Prod.mk.inj (Except.ok.inj hrun)
    exact ⟨storage_of_quiet hq hprint, rfl⟩
  have harrive : ∀ {d}, s.storage.volume.Existing d →
      run (arrive fuel print s.storage.volume d sh) s = .ok (sh', s') →
      s'.storage = s.storage ∧ ∃ d path, s.storage.volume.Existing d ∧
        sh' = sh.enter s.storage.volume d path := by
    intro d hd hrun
    obtain ⟨hs, path, hsh⟩ := run_arrive_ok hrun
    exact ⟨hs, d, path, hd, hsh⟩
  by_cases hparent : folder.chars = ascii ".."
  · obtain ⟨d, hd, -, hcluster⟩ := h.toImage.parent h.existing
    rw [run_cd_parent h hd hcluster (hw.buf.trans hparent)] at hrun
    exact (harrive hd hrun).imp_right .inr
  by_cases hself : folder.chars = ascii "."
  · rw [run_cd_here (hw.buf.trans hself)] at hrun
    exact (hstay (printIf_quiet (printDone_quiet _ _)) hrun).imp_right .inl
  have hf : Plain folder := ⟨hw, hparent, hself⟩
  have hslot := h.toImage.cdSlot_eq h.existing hw
  rw [← h.table] at hslot
  rw [cd_plain hf, cdFolder, hslot] at hrun
  cases hfind : findEntry folder.buf sh.currentDir with
  | none =>
    rw [hfind] at hrun
    exact (hstay (printIf_quiet (puts_quiet _ _)) hrun).imp_right .inl
  | some i =>
    have hfound := hfind
    rw [h.table, h.toImage.findEntry_eq_some h.existing hw] at hfound
    by_cases hfolder : (s.storage.volume.table p i).IsFolder
    · have he : s.storage.volume.LiveEntry p i := ⟨h.existing, hfound.1, hfound.2.live⟩
      obtain ⟨c, -, hc, -⟩ := h.wellFormed.folder_chain he hfolder
      have hl : s.storage.volume.Lists p i c := ⟨he, hfolder, hc⟩
      rw [← hslot, ← cdFolder, ← cd_plain hf, run_cd_child hf h hl hfound.2] at hrun
      exact (harrive hl.existing_child hrun).imp_right .inr
    · rw [hfind] at hrun
      dsimp only at hrun
      rw [h.table, if_pos hfolder] at hrun
      exact (hstay (puts_quiet _ _) hrun).imp_right .inl

end Cd

section Calls
variable {request : DriverRequest} {mem : Memory} {r : Int8} {s s' : System}

theorem run_writeCall {t : Storage} (h : write mem request s.storage = .ok (r, t)) :
    run (writeCall request mem) s = .ok (r, ⟨t, s.output⟩) := by
  have hexec : (Syscall.write request mem).exec s = .ok (r, ⟨t, s.output⟩) := by
    rw [Syscall.exec, h]
  exact (Program.run_perform _).trans hexec

theorem run_writeCall_ok (h : run (writeCall request mem) s = .ok (r, s')) :
    write mem request s.storage = .ok (r, s'.storage) := by
  have hexec : (Syscall.write request mem).exec s = .ok (r, s') :=
    (Program.run_perform _).symm.trans h
  rw [Syscall.exec] at hexec
  cases hw : write mem request s.storage with
  | error f =>
    rw [hw] at hexec
    cases hexec
  | ok x =>
    rw [hw] at hexec
    obtain ⟨rfl, rfl⟩ := Prod.mk.inj (Except.ok.inj hexec)
    rfl

theorem run_deleteCall_ok (h : run (deleteCall request) s = .ok (r, s')) :
    delete request s.storage = .ok (r, s'.storage) := by
  have hexec : (Syscall.delete request).exec s = .ok (r, s') :=
    (Program.run_perform _).symm.trans h
  rw [Syscall.exec] at hexec
  cases hd : delete request s.storage with
  | error f =>
    rw [hd] at hexec
    cases hexec
  | ok x =>
    rw [hd] at hexec
    obtain ⟨rfl, rfl⟩ := Prod.mk.inj (Except.ok.inj hexec)
    rfl

end Calls

theorem Word.named {str : StringN} (h : Word str) (parentClusterNumber bufferSize : UInt32) :
    (namedRequest (padName str.chars) parentClusterNumber bufferSize).Named :=
  fun hm => h.tidy.nonempty (congrFun hm.1.symm 0)

section Effects
variable {sh sh' : Globals} {s s' : System} {p : Cell} {name src dest : StringN}

theorem run_refresh (hcluster : sh.currentDirCluster = p.number) :
    run (refresh sh) s = .ok ({ sh with currentDir := s.storage.volume.table p }, s) := by
  rw [refresh, hcluster, run_bind_ok (run_readTable p s)]
  rfl

theorem run_mkdir_ok (hw : Word name) (h : InStep sh s.storage p)
    (hrun : run (mkdir name sh) s = .ok (sh', s')) :
    ∃ r, write (fun _ => 0) (namedRequest (padName name.chars) p.number 0) s.storage =
        .ok (r, s'.storage) ∧
      sh' = { sh with currentDir := s'.storage.volume.table p } := by
  obtain ⟨_, s₁, hmake, hrun⟩ := of_run_bind hrun
  rw [run_refresh h.cluster] at hrun
  obtain ⟨rfl, rfl⟩ := Prod.mk.inj (Except.ok.inj hrun)
  rw [makeFolder, if_neg (not_lt.mpr hw.le), h.cluster] at hmake
  obtain ⟨r, s₂, hcall, hprint⟩ := of_run_bind hmake
  rw [storage_of_quiet (printMkdir_quiet _ _) hprint]
  exact ⟨r, run_writeCall_ok hcall, rfl⟩

structure Made (s s' : Storage) (p : Cell) (name : StringN) (k : Fin 64) (c : Cell) : Prop where
  lists : s'.volume.Lists p k c
  named : Names name (s'.volume.table p k)
  fresh : FreshTable (s'.volume.table c)
  others : ∀ j, j ≠ k → s'.volume.table p j = s.volume.table p j

/-- A new name, a free slot and a free cell are all that `mkdir` needs. -/
theorem run_mkdir (hw : Word name) (h : InStep sh s.storage p)
    (hfree : ∃ i, 2 ≤ i ∧ ¬(s.storage.volume.table p i).Live)
    (hnew : ∀ i, ¬Names name (s.storage.volume.table p i))
    (hroom : ∃ c, s.storage.clusterMap c = fatEmptyEntry) : ∃ s₁ output k c,
      run (mkdir name sh) s = .ok ({ sh with currentDir := s₁.volume.table p }, ⟨s₁, output⟩) ∧
        Made s.storage s₁ p name k c := by
  obtain ⟨i, hi, hfree⟩ := hfree
  obtain ⟨d, hd⟩ := hroom
  have hcell := h.parent_cell h.existing
  have hfresh : ∀ i, ¬(namedRequest (padName name.chars) p.number 0).Matches
      (s.storage.volume.table p i) := by
    intro i hm
    by_cases hlive : (s.storage.volume.table p i).Live
    · exact hnew i ⟨hlive, hm.1, hm.2⟩
    · rw [h.wellFormed.free_zero h.existing i hlive] at hm
      exact hw.named p.number 0 hm
  have hi0 : i ≠ 0 := by
    rintro rfl
    exact absurd hi (by decide)
  have hroom : (requiredSlots 0).toNat ≤
      ((List.finRange 512).filter fun c => s.storage.clusterMap c = fatEmptyEntry).length := by
    rw [requiredSlots_folder]
    exact List.length_pos_of_mem (List.mem_filter.mpr ⟨List.mem_finRange d, decide_eq_true hd⟩)
  obtain ⟨s₁, hwrite⟩ := write_succeeds (fun _ => 0) rfl hcell hfresh hi0 hfree
    (requiredSlots_pos (.inl rfl)) hroom
  obtain ⟨-, k, c, rest, w, hs₁⟩ := write_done rfl hwrite
  obtain ⟨hl, hentry⟩ := w.lists h.toConsistent h.existing rfl fun _ => 0
  obtain ⟨hempty, hothers⟩ := w.newFolder h.toConsistent h.existing rfl fun _ => 0
  rw [← hs₁] at hl hentry hempty hothers
  obtain ⟨output, hmake⟩ : ∃ output, run (makeFolder name sh) s = .ok ((), ⟨s₁, output⟩) := by
    rw [makeFolder, if_neg (not_lt.mpr hw.le), h.cluster, run_bind_ok (run_writeCall hwrite)]
    exact ⟨_, rfl⟩
  refine ⟨s₁, output, k, c, (run_bind_ok hmake).trans (run_refresh h.cluster), hl, ?_, hempty,
    hothers⟩
  rw [hentry]
  exact ⟨rfl, rfl, rfl⟩

theorem run_rm_ok (hw : Word name) (h : InStep sh s.storage p)
    (hrun : run (rm name sh) s = .ok (sh', s')) :
    ∃ r, delete (namedRequest (padName name.chars) p.number 0) s.storage = .ok (r, s'.storage) ∧
      sh' = { sh with currentDir := s'.storage.volume.table p } := by
  obtain ⟨_, s₁, hremove, hrun⟩ := of_run_bind hrun
  rw [run_refresh h.cluster] at hrun
  obtain ⟨rfl, rfl⟩ := Prod.mk.inj (Except.ok.inj hrun)
  rw [removeEntry, if_neg (not_lt.mpr hw.le), h.cluster] at hremove
  obtain ⟨r, s₂, hcall, hprint⟩ := of_run_bind hremove
  rw [storage_of_quiet (printRm_quiet _ _) hprint]
  exact ⟨r, run_deleteCall_ok hcall, rfl⟩

/-- The characters of the copy's name are those of `dest`, and behind them those of `src`. -/
theorem overlayName_eq (dest src : StringN) :
    overlayName dest src = padName (dest.chars ++ src.chars.drop dest.len) := by
  funext i
  rw [overlayName, padName]
  split_ifs with hlt
  · rw [List.getD_append _ _ _ _ hlt]
  · rw [not_lt] at hlt
    have hindex : dest.len + (i.val - dest.chars.length) = i.val := Nat.add_sub_cancel' hlt
    rw [List.getD_append_right _ _ _ _ hlt]
    simp only [List.getD_eq_getElem?_getD, List.getElem?_drop, hindex]

theorem overlay_word (hsrc : Word src) (hdest : Word dest) :
    Word ⟨dest.chars ++ src.chars.drop dest.len⟩ where
  pos := by
    have hpos := hdest.pos
    rw [StringN.len] at hpos
    rw [StringN.len_mk, List.length_append]
    omega
  le := by
    have hle := hdest.le
    have hle' := hsrc.le
    rw [StringN.len] at hle hle'
    rw [StringN.len_mk, List.length_append, List.length_drop, StringN.len]
    omega
  ne_zero c hc := by
    rcases List.mem_append.mp hc with hc | hc
    · exact hdest.ne_zero c hc
    · exact hsrc.ne_zero c (List.mem_of_mem_drop hc)

theorem run_cp_ok {stack : Memory} {srcBuf : UInt32} (hsrc : Word src) (hdest : Word dest)
    (h : InStep sh s.storage p) (hto : sh.cpDestCluster = sh.currentDirCluster)
    (hrun : run (cp src dest stack srcBuf sh) s = .ok (sh', s')) :
    (s'.storage = s.storage ∧ sh' = sh) ∨ ∃ r mem bufferSize,
      write mem ⟨srcBuf, overlayName dest src, fun _ => 0, p.number, bufferSize⟩ s.storage =
        .ok (r, s'.storage) ∧
      sh' = { sh with currentDir := s'.storage.volume.table p } := by
  have hstay : ∀ {t : System} {q : Prog Unit}, t.storage = s.storage → q.Uses Syscall.Quiet →
      run (q >>= fun _ => pure sh) t = .ok (sh', s') → s'.storage = s.storage ∧ sh' = sh := by
    intro t q ht hq hrun
    obtain ⟨_, s₁, hprint, hrun⟩ := of_run_bind hrun
    obtain ⟨rfl, rfl⟩ := Prod.mk.inj (Except.ok.inj hrun)
    exact ⟨(storage_of_quiet hq hprint).trans ht, rfl⟩
  obtain ⟨hle, hpos⟩ := hsrc.accepted hdest
  rw [cp, if_neg hle, if_neg hpos] at hrun
  obtain ⟨⟨retcode, mem⟩, s₁, hread, hrun⟩ := of_run_bind hrun
  have hs₁ : s₁.storage = s.storage := storage_of_quiet (readCall_quiet _ _) hread
  dsimp only at hrun
  split_ifs at hrun with h1 h2 h3
  · exact .inl (hstay hs₁ (puts_quiet _ _) hrun)
  · exact .inl (hstay hs₁ (puts_quiet _ _) hrun)
  · exact .inl (hstay hs₁ (puts_quiet _ _) hrun)
  obtain ⟨filesize, s₂, hcount, hrun⟩ := of_run_bind hrun
  have hs₂ : s₂.storage = s.storage :=
    (storage_of_quiet (Program.Uses.ofExcept _) hcount).trans hs₁
  obtain ⟨r, s₃, hcall, hrun⟩ := of_run_bind hrun
  have hwrite := run_writeCall_ok hcall
  rw [hs₂, hto, h.cluster] at hwrite
  split_ifs at hrun with hexists
  · obtain ⟨hs₃, -⟩ | ⟨hzero, -⟩ := write_cases rfl hwrite
    · exact .inl (hstay hs₃ (puts_quiet _ _) hrun)
    · rw [hexists] at hzero
      exact absurd hzero (by decide)
  · obtain ⟨sh₁, s₄, hrefresh, hrun⟩ := of_run_bind hrun
    rw [run_refresh h.cluster] at hrefresh
    obtain ⟨rfl, rfl⟩ := Prod.mk.inj (Except.ok.inj hrefresh)
    have hdone : s'.storage = s₃.storage ∧
        sh' = { sh with currentDir := s₃.storage.volume.table p } := by
      split_ifs at hrun
      · obtain ⟨rfl, rfl⟩ := Prod.mk.inj (Except.ok.inj hrun)
        exact ⟨rfl, rfl⟩
      · obtain ⟨_, s₅, hprint, hrun⟩ := of_run_bind hrun
        obtain ⟨rfl, rfl⟩ := Prod.mk.inj (Except.ok.inj hrun)
        exact ⟨storage_of_quiet (printDone_quiet _ _) hprint, rfl⟩
    rw [hdone.1]
    exact .inr ⟨r, mem, _, hwrite, hdone.2⟩

end Effects

def Command.Words : Command → Prop
  | cd folder => Word folder
  | mkdir folderName => Word folderName
  | rm folder => Word folder
  | cp src dest _ _ => Word src ∧ Word dest
  | mv src dest => Word src ∧ Word dest
  | find filename => Word filename
  | prompt => True

/-- The commands that change the disk through the calls for files alone, or not at all. -/
def Command.Simple : Command → Prop
  | mv _ _ | find _ => False
  | _ => True

structure SameRoot (sh sh' : Globals) : Prop where
  dir : sh'.rootDir = sh.rootDir
  path : sh'.rootDirPath = sh.rootDirPath
  cluster : sh'.rootDirCluster = sh.rootDirCluster

theorem SameRoot.refl (sh : Globals) : SameRoot sh sh := ⟨rfl, rfl, rfl⟩

/-- What a simple command in directory `p` does to the storage. -/
def SimpleEffect (p : Cell) (s s' : Storage) : Prop :=
  s' = s ∨ ∃ call : Call, call.request.parentClusterNumber = p.number ∧
    (∀ mem request, call = .write mem request → TidyName request.name request.ext) ∧
    Effect p call s s'

section Exec
variable {sh sh' : Globals} {s s' : System} {p : Cell} {fuel : ℕ}

theorem InStep.of_effect {call : Call} {s s' : Storage} (h : InStep sh s p)
    (hreq : call.request.parentClusterNumber = p.number)
    (hcall : ∀ mem request, call = .write mem request → TidyName request.name request.ext)
    (heff : Effect p call s s') : InStep { sh with currentDir := s'.volume.table p } s' p where
  toImage := h.toImage.of_effect h.existing hreq hcall heff
  existing := heff.keeps_parent h.toConsistent h.existing
  cluster := h.cluster
  table := rfl

theorem effect_of_write {s s' : Storage} {mem : Memory} {request : DriverRequest} {r : Int8}
    (hs : s.Consistent) (hp : s.volume.Existing p) (hreq : request.parentClusterNumber = p.number)
    (h : write mem request s = .ok (r, s')) : Effect p (.write mem request) s s' :=
  exec_effect hs hp hreq (by rintro _ ⟨⟩) h

/-- The step lemma of the simple commands. -/
theorem run_simple_ok {cmd : Command} (hsimple : cmd.Simple) (hw : cmd.Words)
    (h : InStep sh s.storage p) (hrun : run (cmd.exec fuel sh) s = .ok (sh', s')) :
    SameRoot sh sh' ∧ SimpleEffect p s.storage s'.storage ∧ ∃ p', InStep sh' s'.storage p' := by
  have hwrite : ∀ {str mem r request}, Word str → request.name = padName str.chars →
      request.ext = (fun _ => 0) → request.parentClusterNumber = p.number →
      write mem request s.storage = .ok (r, s'.storage) →
      SimpleEffect p s.storage s'.storage ∧
        InStep { sh with currentDir := s'.storage.volume.table p } s'.storage p := by
    intro str mem r request hstr hname hext hreq hcall
    have heff := effect_of_write h.toConsistent h.existing hreq hcall
    have hcall : (Call.write mem request).request.parentClusterNumber = p.number := hreq
    have htidy : ∀ mem' request', Call.write mem request = .write mem' request' →
        TidyName request'.name request'.ext := by
      rintro _ _ ⟨⟩
      rw [hname, hext]
      exact hstr.tidy
    exact ⟨.inr ⟨_, hcall, htidy, heff⟩, h.of_effect hcall htidy heff⟩
  cases cmd with
  | cd folder =>
    obtain ⟨hs, rfl | ⟨d, path, hd, rfl⟩⟩ := run_cd_ok hw h hrun
    · rw [hs]
      exact ⟨.refl _, .inl rfl, p, h⟩
    · rw [hs]
      exact ⟨⟨rfl, rfl, rfl⟩, .inl rfl, d, h.toImage.inStep hd sh path⟩
  | mkdir folderName =>
    obtain ⟨r, hcall, rfl⟩ := run_mkdir_ok hw h hrun
    obtain ⟨heff, hstep⟩ := hwrite hw rfl rfl rfl hcall
    exact ⟨⟨rfl, rfl, rfl⟩, heff, p, hstep⟩
  | rm folder =>
    obtain ⟨r, hcall, rfl⟩ := run_rm_ok hw h hrun
    have hnamed := Word.named hw p.number 0
    have heff : Effect p (.delete _) s.storage s'.storage :=
      exec_effect h.toConsistent h.existing rfl
        (by rintro _ ⟨⟩; exact hnamed.clear h.wellFormed h.existing) hcall
    have htidy : ∀ mem request, Call.delete (namedRequest (padName folder.chars) p.number 0) =
        .write mem request → TidyName request.name request.ext := by rintro _ _ ⟨⟩
    exact ⟨⟨rfl, rfl, rfl⟩, .inr ⟨_, rfl, htidy, heff⟩, p, h.of_effect rfl htidy heff⟩
  | cp src dest stack srcBuf =>
    have hto : InStep { sh with cpDestCluster := sh.currentDirCluster } s.storage p :=
      ⟨h.toImage, h.existing, h.cluster, h.table⟩
    rcases run_cp_ok hw.1 hw.2 hto rfl hrun with ⟨hs, rfl⟩ | ⟨r, mem, size, hcall, rfl⟩
    · rw [hs]
      exact ⟨⟨rfl, rfl, rfl⟩, .inl rfl, p, hto⟩
    · obtain ⟨heff, hstep⟩ := hwrite (overlay_word hw.1 hw.2) (overlayName_eq dest src) rfl rfl hcall
      exact ⟨⟨rfl, rfl, rfl⟩, heff, p, hstep.toImage, hstep.existing, hstep.cluster, rfl⟩
  | prompt =>
    obtain ⟨sh₁, s₁, hpath, hrun⟩ := of_run_bind hrun
    obtain ⟨path, s₂, hbuild, hpath⟩ := of_run_bind hpath
    obtain ⟨rfl, rfl⟩ := Prod.mk.inj (Except.ok.inj hpath)
    obtain ⟨_, s₃, hprint, hrun⟩ := of_run_bind hrun
    obtain ⟨rfl, rfl⟩ := Prod.mk.inj (Except.ok.inj hrun)
    rw [storage_of_quiet (printPrompt_quiet _) hprint,
      system_of_silent (createPathRecursive_silent _ _) hbuild]
    exact ⟨⟨rfl, rfl, rfl⟩, .inl rfl, p, h.toImage, h.existing, h.cluster, h.table⟩
  | mv _ _ => exact hsimple.elim
  | find _ => exact hsimple.elim

end Exec

end Os2024.Shell
