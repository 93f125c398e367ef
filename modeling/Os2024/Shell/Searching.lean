import Os2024.Library.Preorder
import Os2024.Shell.GuardedSessions

/-! # find

`find` starts from the copy of the root table that the shell has taken at its start
and walks through the tree with `cd`. As far as it reads the copy, the copy has to
show what is on the disk. Then it visits the live entries in preorder, prints the
path of the first that has the name, and leaves the shell where it was.
-/

namespace Os2024.Shell
open Library.PackedLayout Library.CallTrees Library.Runs Library.Preorder Relation
open FileSystem FileSystem.Volume

def Occupied (v : Volume) (d : Cell) (i : Fin 64) : Prop := (v.table d i).Live

def LeadsTo (v : Volume) (d : Cell) (i : Fin 64) (c : Cell) : Prop :=
  (v.table d i).Live ∧ (v.table d i).IsFolder ∧ (v.table d i).cluster = c.number

/-- The visits to the slots `l` of directory `d` and to what is below them. -/
abbrev TreeVisits (v : Volume) : Cell → List (Fin 64) → List (Cell × Fin 64) → Prop :=
  Visits (Occupied v) (LeadsTo v) slots

/-- The list of all live entries: the slots of the root in order, an entry before its contents. -/
abbrev Preorder (v : Volume) : List (Cell × Fin 64) → Prop := TreeVisits v 2 slots

section Tree
variable {v : Volume} {p : Cell}

theorem below_eq_child (v : Volume) : Below (LeadsTo v) slots = v.Child := by
  funext d c
  refine propext (exists_congr fun i => ?_)
  rw [mem_slots, LeadsTo]

theorem exists_preorder (h : v.WellFormed) : ∃ visited, Preorder v visited := by
  refine exists_visits ?_
  rw [below_eq_child]
  exact acc_of_rooted h.rooted .refl

theorem mem_preorder {visited : List (Cell × Fin 64)} (h : Preorder v visited) (d : Cell)
    (i : Fin 64) : (d, i) ∈ visited ↔ v.LiveEntry d i := by
  rw [h.mem_places_iff (fun _ _ _ hc => hc.1)
    fun _ _ _ _ hc hd => Cell.number_injective (hc.2.2.symm.trans hd.2.2), below_eq_child, mem_slots]
  exact ⟨fun ⟨hlive, hi, hd⟩ => ⟨hd, hi, hlive⟩, fun ⟨hd, hi, hlive⟩ => ⟨hlive, hi, hd⟩⟩

end Tree

def Carries (v : Volume) (filename : StringN) (e : Cell × Fin 64) : Bool :=
  strcmp (entryName (v.table e.1 e.2)) filename.buf

def foundLines (path : List UInt8) : List PutsArgs :=
  [⟨ascii "File/folder found at ", biosLightGreen, 0x0⟩, ⟨path, biosYellow, 0x0⟩,
    ⟨ascii "!", 0x7, 0x0⟩]

def notFoundLines : List PutsArgs :=
  [⟨ascii "find: File/folder not found in filesystem!", biosLightRed, 0x0⟩]

/-- No folder has a name that `cd` keeps for itself. -/
def NoDots (v : Volume) : Prop := ∀ d i c, v.Lists d i c →
  entryName (v.table d i) ≠ ascii ".." ∧ entryName (v.table d i) ≠ ascii "."

/-- Every path has at most 255 characters. -/
def PathsFit (v : Volume) : Prop := ∀ d i names, v.LiveEntry d i → PathTo v d names →
  (pathChars names ++ entryName (v.table d i)).length ≤ 255

def Globals.inDirectory (sh : Globals) (v : Volume) (d : Cell) (names : List (List UInt8)) : Globals :=
  sh.enter v d ⟨pathChars names⟩

/-- A state in which a search has left the globals. -/
def Strayed (sh sh' : Globals) : Prop := ∃ table path cluster, sh' = { sh with
  currentDir := table, currentDirPath := path, currentDirCluster := cluster }

theorem pathChars_ne_zero {v : Volume} {d : Cell} {names : List (List UInt8)}
    (h : PathTo v d names) : ∀ x ∈ pathChars names, x ≠ 0 := by
  induction h with
  | root => exact ne_zero_of_all (by decide)
  | step _ hl ih =>
    intro x hx
    rw [pathChars_concat] at hx
    rcases List.mem_append.mp hx with hx | hx
    · exact ih x hx
    rcases List.mem_append.mp hx with hx | hx
    · exact ne_zero_of_mem_cString hx
    · rw [List.mem_singleton.mp hx]
      decide

theorem names_length_le (names : List (List UInt8)) :
    names.length + 2 ≤ (pathChars names).length := by
  induction names using List.reverseRecOn with
  | nil => decide
  | append_singleton names name ih =>
    have hslash : (ascii "/").length = 1 := rfl
    rw [pathChars_concat, List.length_append, List.length_append, List.length_append, hslash,
      List.length_singleton]
    omega

section Walk
variable {sh : Globals} {s : System} {p c : Cell} {i : Fin 64} {fuel : ℕ}
variable {names : List (List UInt8)}

theorem PathsFit.directory (hfit : PathsFit s.storage.volume) (h : Image s.storage)
    (hpath : PathTo s.storage.volume p names) : (pathChars names).length ≤ 256 := by
  cases hpath with
  | root => decide
  | step hpath hl =>
    have hlen := hfit _ _ _ hl.toLiveEntry hpath
    rw [(h.tidy hl.toLiveEntry).entryName, List.length_append] at hlen
    have hslash : (ascii "/").length = 1 := rfl
    rw [pathChars_concat, List.length_append, List.length_append, hslash]
    omega

/-- In a tree whose paths fit, 255 levels are enough. -/
theorem PathsFit.levels (hfit : PathsFit s.storage.volume) (h : Image s.storage)
    (hpath : PathTo s.storage.volume p names) : names.length < 255 := by
  have hlen := hfit.directory h hpath
  have hle := names_length_le names
  omega

theorem run_leave (h : Image s.storage) (hfit : PathsFit s.storage.volume)
    (hpath : PathTo s.storage.volume p names) (hparent : (sh.currentDir 1).cluster = p.number)
    (hfuel : 255 ≤ fuel) :
    run (cd fuel ⟨ascii ".."⟩ false sh) s = .ok (sh.inDirectory s.storage.volume p names, s) := by
  have hup : run (cd fuel ⟨ascii ".."⟩ false sh) s =
      run (arrive fuel false s.storage.volume p sh) s :=
    run_cd_up h hpath.existing hparent (by decide) fuel
  exact hup.trans (run_arrive_quiet sh h hpath (lt_of_lt_of_le (hfit.levels h hpath) hfuel)
    (hfit.directory h hpath))

theorem run_descend (h : Image s.storage) (hdots : NoDots s.storage.volume)
    (hfit : PathsFit s.storage.volume) (hpath : PathTo s.storage.volume p names)
    (hl : s.storage.volume.Lists p i c) (hfuel : 255 ≤ fuel) :
    run (cd fuel ⟨entryName (s.storage.volume.table p i)⟩ false
        (sh.inDirectory s.storage.volume p names)) s =
      .ok (sh.inDirectory s.storage.volume c
        (names ++ [nameChars (s.storage.volume.table p i).name]), s) := by
  have hf : Plain ⟨entryName (s.storage.volume.table p i)⟩ :=
    ⟨h.word_of_live hl.toLiveEntry, (hdots _ _ _ hl).1, (hdots _ _ _ hl).2⟩
  have hdown : run (cd fuel _ false (sh.inDirectory s.storage.volume p names)) s =
      run (arrive fuel false s.storage.volume c (sh.inDirectory s.storage.volume p names)) s :=
    run_cd_child hf (h.inStep hpath.existing sh ⟨pathChars names⟩) hl
      (h.names_of_live hl.toLiveEntry) fuel
  have hpath' := hpath.step hl
  exact hdown.trans (run_arrive_quiet _ h hpath' (lt_of_lt_of_le (hfit.levels h hpath') hfuel)
    (hfit.directory h hpath'))

end Walk

section Slot
variable (sh : Globals) {s : System} {filename : StringN} {i : Fin 64} {fuel : ℕ}
variable {rest : List (Fin 64)} {found : Bool} {recurse : Globals → Bool → Prog (Globals × Bool)}

theorem findLoop_free (hfree : ¬(sh.currentDir i).Live) :
    findLoop fuel filename recurse (i :: rest) sh found =
      findLoop fuel filename recurse rest sh found := by
  rw [findLoop, if_pos hfree]

theorem findLoop_allFree {l : List (Fin 64)} (hfree : ∀ i ∈ l, ¬(sh.currentDir i).Live) :
    findLoop fuel filename recurse l sh found = pure (sh, found, false) := by
  induction l with
  | nil => rfl
  | cons i rest ih =>
    obtain ⟨hi, hrest⟩ := List.forall_mem_cons.mp hfree
    rw [findLoop_free sh hi, ih hrest]

theorem findLoop_file (hname : ¬strcmp (entryName (sh.currentDir i)) filename.buf)
    (hfile : ¬(sh.currentDir i).IsFolder) : findLoop fuel filename recurse (i :: rest) sh found =
      findLoop fuel filename recurse rest sh found := by
  rw [findLoop]
  split_ifs
  · rfl
  · rfl

theorem run_findLoop_named (hlive : (sh.currentDir i).Live)
    (hname : strcmp (entryName (sh.currentDir i)) filename.buf) :
    run (findLoop fuel filename recurse (i :: rest) sh found) s =
      run (printIf (!found) (printFound sh (sh.currentDir i)) >>= fun _ =>
        pure (sh, true, true)) s := by
  rw [findLoop, if_neg (not_not.mpr hlive), if_pos hname]

theorem run_findLoop_folder (hlive : (sh.currentDir i).Live)
    (hname : ¬strcmp (entryName (sh.currentDir i)) filename.buf)
    (hfolder : (sh.currentDir i).IsFolder) (hw : Word ⟨entryName (sh.currentDir i)⟩) :
    run (findLoop fuel filename recurse (i :: rest) sh found) s =
      run (cd fuel ⟨entryName (sh.currentDir i)⟩ false sh >>= fun sh => do
        let (sh, found) ← recurse sh found
        findLoop fuel filename recurse rest sh found) s := by
  have hown : StringN.create.appendstr (entryName (sh.currentDir i)) =
      .ok ⟨entryName (sh.currentDir i)⟩ := by
    refine StringN.appendstr_ok ?_
    have hle := hw.le
    rw [StringN.len_mk] at hle
    rw [StringN.create, StringN.len_mk, List.length_nil]
    omega
  rw [findLoop, if_neg (not_not.mpr hlive), if_neg hname, if_pos hfolder, hown,
    run_bind_ok (run_ofExcept _)]

theorem run_printFound {entry : DirectoryEntry}
    (hfit : (sh.currentDirPath.buf ++ entryName entry).length ≤ 255) :
    run (printFound sh entry) s = .ok ((), ⟨s.storage,
      s.output ++ foundLines (sh.currentDirPath.buf ++ entryName entry)⟩) := by
  rw [List.length_append] at hfit
  have hpath : StringN.create.appendstr sh.currentDirPath.buf = .ok ⟨sh.currentDirPath.buf⟩ := by
    refine StringN.appendstr_ok ?_
    rw [StringN.create, StringN.len_mk, List.length_nil]
    omega
  have hname : StringN.appendstr ⟨sh.currentDirPath.buf⟩ (entryName entry) =
      .ok ⟨sh.currentDirPath.buf ++ entryName entry⟩ :=
    StringN.appendstr_ok (by rw [StringN.len_mk]; omega)
  have hputs : ∀ buf fgColor (t : System),
      run (puts buf fgColor) t = .ok ((), ⟨t.storage, t.output ++ [⟨buf, fgColor, 0x0⟩]⟩) :=
    fun _ _ _ => rfl
  rw [printFound, run_bind_ok (hputs _ _ _), hpath, run_bind_ok (run_ofExcept _), hname,
    run_bind_ok (run_ofExcept _), run_bind_ok (hputs _ _ _), hputs, foundLines]
  simp only [List.append_assoc, List.cons_append, List.nil_append]

end Slot

section Search
variable {sh : Globals} {s : System} {filename : StringN} {p : Cell} {fuel : ℕ}
variable {names : List (List UInt8)} {visited : List (Cell × Fin 64)} {l : List (Fin 64)}

variable (s) in
/-- After a success the loops that are left run on in the directory of the entry found or below,
and print nothing. -/
theorem run_findLoop_found (h : Image s.storage) (hdots : NoDots s.storage.volume)
    (hfit : PathsFit s.storage.volume) (hfuel : 255 ≤ fuel) (depth : ℕ)
    (hpath : PathTo s.storage.volume p names) (hslots : ∀ i ∈ l, 2 ≤ i) : ∃ d names' returned,
      PathTo s.storage.volume d names' ∧
      run (findLoop fuel filename (findRecursive fuel filename (depth + 1)) l
        (sh.inDirectory s.storage.volume p names) true) s =
        .ok ((sh.inDirectory s.storage.volume d names', true, returned), s) := by
  induction l generalizing p names with
  | nil => exact ⟨p, names, false, hpath, rfl⟩
  | cons i rest ih =>
    have hrest : ∀ i ∈ rest, 2 ≤ i := fun j hj => hslots j (List.mem_cons_of_mem i hj)
    let here := sh.inDirectory s.storage.volume p names
    by_cases hlive : (s.storage.volume.table p i).Live
    · by_cases hname : strcmp (entryName (s.storage.volume.table p i)) filename.buf
      · exact ⟨p, names, true, hpath, run_findLoop_named here hlive hname⟩
      by_cases hfolder : (s.storage.volume.table p i).IsFolder
      · have he : s.storage.volume.LiveEntry p i :=
          ⟨hpath.existing, hslots i List.mem_cons_self, hlive⟩
        obtain ⟨c, -, hc, -⟩ := h.wellFormed.folder_chain he hfolder
        have hl : s.storage.volume.Lists p i c := ⟨he, hfolder, hc⟩
        obtain ⟨d, names', returned, hd, hrun⟩ := ih (hpath.step hl) hrest
        refine ⟨d, names', returned, hd, ?_⟩
        refine (run_findLoop_folder here hlive hname hfolder (h.word_of_live he)).trans ?_
        exact (run_bind_ok (run_descend h hdots hfit hpath hl hfuel)).trans hrun
      · rw [findLoop_file here hname hfolder]
        exact ih hpath hrest
    · rw [findLoop_free here hlive]
      exact ih hpath hrest

/-- A search below `c` that has found nothing goes back to the parent. -/
theorem run_findRecursive_none (h : Image s.storage) (hfit : PathsFit s.storage.volume)
    (hfuel : 255 ≤ fuel) {depth : ℕ} (hpath : PathTo s.storage.volume p names) {c : Cell}
    {names' : List (List UInt8)} (hparent : (s.storage.volume.table c 1).cluster = p.number)
    (hloop : run (findLoop fuel filename (findRecursive fuel filename depth) slots
      (sh.inDirectory s.storage.volume c names') false) s =
      .ok ((sh.inDirectory s.storage.volume c names', false, false), s)) :
    run (findRecursive fuel filename (depth + 1) (sh.inDirectory s.storage.volume c names') false) s =
      .ok ((sh.inDirectory s.storage.volume p names, false), s) := by
  have hup : run (cd fuel ⟨ascii ".."⟩ false (sh.inDirectory s.storage.volume c names')) s =
      .ok (sh.inDirectory s.storage.volume p names, s) := run_leave h hfit hpath hparent hfuel
  exact (run_bind_ok hloop).trans (run_bind_ok hup)

theorem run_findRecursive_some (s' : System) (h : Image s'.storage)
    (hfit : PathsFit s'.storage.volume) (hfuel : 255 ≤ fuel) {depth : ℕ} {start : Globals}
    {d : Cell} (hpath : PathTo s'.storage.volume d names) {returned : Bool}
    (hloop : run (findLoop fuel filename (findRecursive fuel filename depth) slots start false) s =
      .ok ((sh.inDirectory s'.storage.volume d names, true, returned), s')) :
    ∃ d' names', PathTo s'.storage.volume d' names' ∧
      run (findRecursive fuel filename (depth + 1) start false) s =
        .ok ((sh.inDirectory s'.storage.volume d' names', true), s') := by
  cases returned with
  | true => exact ⟨d, names, hpath, run_bind_ok hloop⟩
  | false =>
    obtain ⟨b, hb, -, hparent⟩ := h.parent hpath.existing
    obtain ⟨names', hpath'⟩ := exists_pathTo hb
    have hup : run (cd fuel ⟨ascii ".."⟩ false (sh.inDirectory s'.storage.volume d names)) s' =
        .ok (sh.inDirectory s'.storage.volume b names', s') := run_leave h hfit hpath' hparent hfuel
    exact ⟨b, names', hpath', (run_bind_ok hloop).trans (run_bind_ok hup)⟩

/-- Into the folder in slot `i`, through what is below it and on with the slots behind it. -/
theorem run_findLoop_into (h : Image s.storage) (hdots : NoDots s.storage.volume)
    (hfit : PathsFit s.storage.volume) (hfuel : 255 ≤ fuel)
    (hpath : PathTo s.storage.volume p names) {i : Fin 64} {c : Cell}
    (hl : s.storage.volume.Lists p i c) (hname : ¬Carries s.storage.volume filename (p, i))
    {recurse : Globals → Bool → Prog (Globals × Bool)} {sh' : Globals} {found : Bool} {s' : System}
    (hrec : run (recurse (sh.inDirectory s.storage.volume c
      (names ++ [nameChars (s.storage.volume.table p i).name])) false) s =
      .ok ((sh', found), s')) :
    run (findLoop fuel filename recurse (i :: l) (sh.inDirectory s.storage.volume p names) false) s =
      run (findLoop fuel filename recurse l sh' found) s' := by
  refine (run_findLoop_folder (sh.inDirectory s.storage.volume p names) hl.live hname hl.folder
    (h.word_of_live hl.toLiveEntry)).trans ?_
  exact (run_bind_ok (run_descend h hdots hfit hpath hl hfuel)).trans (run_bind_ok hrec)

variable (sh) in
theorem run_findLoop_none (h : Image s.storage) (hdots : NoDots s.storage.volume)
    (hfit : PathsFit s.storage.volume) (hfuel : 255 ≤ fuel)
    (hv : TreeVisits s.storage.volume p l visited) (hslots : ∀ i ∈ l, 2 ≤ i)
    (hpath : PathTo s.storage.volume p names) {depth : ℕ} (hdepth : 256 ≤ depth + names.length)
    (hnone : ∀ e ∈ visited, ¬Carries s.storage.volume filename e) :
    run (findLoop fuel filename (findRecursive fuel filename depth) l
      (sh.inDirectory s.storage.volume p names) false) s =
      .ok ((sh.inDirectory s.storage.volume p names, false, false), s) := by
  induction hv generalizing names depth with
  | nil => rfl
  | @free p i l rest hfree _ ih =>
    rw [findLoop_free (sh.inDirectory s.storage.volume p names) hfree]
    exact ih (fun j hj => hslots j (List.mem_cons_of_mem i hj)) hpath hdepth hnone
  | @leaf p i l rest hlive hleaf _ ih =>
    obtain ⟨hname, hnone⟩ := List.forall_mem_cons.mp hnone
    have hfile : ¬(s.storage.volume.table p i).IsFolder := by
      intro hfolder
      obtain ⟨c, -, hc, -⟩ := h.wellFormed.folder_chain
        ⟨hpath.existing, hslots i List.mem_cons_self, hlive⟩ hfolder
      exact hleaf c ⟨hlive, hfolder, hc⟩
    rw [findLoop_file (sh.inDirectory s.storage.volume p names) hname hfile]
    exact ih (fun j hj => hslots j (List.mem_cons_of_mem i hj)) hpath hdepth hnone
  | @node p c i l below rest hc _ _ ihbelow ih =>
    obtain ⟨hname, hnone⟩ := List.forall_mem_cons.mp hnone
    obtain ⟨hbelow, hrest⟩ := List.forall_mem_append.mp hnone
    have hl : s.storage.volume.Lists p i c :=
      ⟨⟨hpath.existing, hslots i List.mem_cons_self, hc.1⟩, hc.2.1, hc.2.2⟩
    have hlevels := hfit.levels h hpath
    cases depth with
    | zero => omega
    | succ depth =>
      have hdepth' : 256 ≤ depth + (names ++ [nameChars (s.storage.volume.table p i).name]).length := by
        rw [List.length_append, List.length_singleton]
        omega
      have hloop := ihbelow (fun j hj => mem_slots.mp hj) (hpath.step hl) hdepth' hbelow
      have hrec := run_findRecursive_none h hfit hfuel hpath (h.linked hl).parentCluster hloop
      rw [run_findLoop_into h hdots hfit hfuel hpath hl hname hrec]
      exact ih (fun j hj => hslots j (List.mem_cons_of_mem i hj)) hpath hdepth hrest

theorem run_findLoop_here (hfit : PathsFit s.storage.volume)
    (hpath : PathTo s.storage.volume p names) {i : Fin 64} (he : s.storage.volume.LiveEntry p i)
    (hname : Carries s.storage.volume filename (p, i))
    {recurse : Globals → Bool → Prog (Globals × Bool)} :
    run (findLoop fuel filename recurse (i :: l) (sh.inDirectory s.storage.volume p names) false) s =
      .ok ((sh.inDirectory s.storage.volume p names, true, true), ⟨s.storage, s.output ++
        foundLines (pathChars names ++ entryName (s.storage.volume.table p i))⟩) := by
  have hbuf : (sh.inDirectory s.storage.volume p names).currentDirPath.buf = pathChars names :=
    cString_of_ne_zero (pathChars_ne_zero hpath)
  have hprint : run (printFound (sh.inDirectory s.storage.volume p names)
      (s.storage.volume.table p i)) s = _ := run_printFound _ (by rw [hbuf]; exact hfit _ _ _ he hpath)
  rw [hbuf] at hprint
  refine (run_findLoop_named (sh.inDirectory s.storage.volume p names) he.live hname).trans ?_
  exact run_bind_ok hprint

theorem run_findLoop_some (h : Image s.storage) (hdots : NoDots s.storage.volume)
    (hfit : PathsFit s.storage.volume) (hfuel : 255 ≤ fuel)
    (hv : TreeVisits s.storage.volume p l visited) (hslots : ∀ i ∈ l, 2 ≤ i)
    (hpath : PathTo s.storage.volume p names) {depth : ℕ} (hdepth : 256 ≤ depth + names.length)
    {d : Cell} {j : Fin 64}
    (hsome : visited.find? (Carries s.storage.volume filename) = some (d, j)) :
    ∃ names', PathTo s.storage.volume d names' ∧ ∃ b names'' returned,
      PathTo s.storage.volume b names'' ∧
      run (findLoop fuel filename (findRecursive fuel filename depth) l
        (sh.inDirectory s.storage.volume p names) false) s =
        .ok ((sh.inDirectory s.storage.volume b names'', true, returned), ⟨s.storage, s.output ++
          foundLines (pathChars names' ++ entryName (s.storage.volume.table d j))⟩) := by
  induction hv generalizing names depth with
  | nil => cases hsome
  | @free p i l rest hfree _ ih =>
    rw [findLoop_free (sh.inDirectory s.storage.volume p names) hfree]
    exact ih (fun j hj => hslots j (List.mem_cons_of_mem i hj)) hpath hdepth hsome
  | @leaf p i l rest hlive hleaf _ ih =>
    have he : s.storage.volume.LiveEntry p i :=
      ⟨hpath.existing, hslots i List.mem_cons_self, hlive⟩
    by_cases hname : Carries s.storage.volume filename (p, i)
    · rw [List.find?_cons_of_pos hname] at hsome
      obtain ⟨rfl, rfl⟩ := Prod.mk.inj (Option.some.inj hsome)
      exact ⟨names, hpath, p, names, true, hpath, run_findLoop_here hfit hpath he hname⟩
    · rw [List.find?_cons_of_neg hname] at hsome
      have hfile : ¬(s.storage.volume.table p i).IsFolder := by
        intro hfolder
        obtain ⟨c, -, hc, -⟩ := h.wellFormed.folder_chain he hfolder
        exact hleaf c ⟨hlive, hfolder, hc⟩
      rw [findLoop_file (sh.inDirectory s.storage.volume p names) hname hfile]
      exact ih (fun j hj => hslots j (List.mem_cons_of_mem i hj)) hpath hdepth hsome
  | @node p c i l below rest hc hbelow _ ihbelow ih =>
    have hl : s.storage.volume.Lists p i c :=
      ⟨⟨hpath.existing, hslots i List.mem_cons_self, hc.1⟩, hc.2.1, hc.2.2⟩
    have hrestSlots : ∀ j ∈ l, 2 ≤ j := fun j hj => hslots j (List.mem_cons_of_mem i hj)
    by_cases hname : Carries s.storage.volume filename (p, i)
    · rw [List.find?_cons_of_pos hname] at hsome
      obtain ⟨rfl, rfl⟩ := Prod.mk.inj (Option.some.inj hsome)
      exact ⟨names, hpath, p, names, true, hpath, run_findLoop_here hfit hpath hl.toLiveEntry hname⟩
    rw [List.find?_cons_of_neg hname, List.find?_append] at hsome
    have hlevels := hfit.levels h hpath
    cases depth with
    | zero => omega
    | succ depth =>
      have hdepth' : 256 ≤ depth + (names ++ [nameChars (s.storage.volume.table p i).name]).length := by
        rw [List.length_append, List.length_singleton]
        omega
      have hslots' : ∀ j ∈ slots, 2 ≤ j := fun j hj => mem_slots.mp hj
      cases hfind : below.find? (Carries s.storage.volume filename) with
      | none =>
        rw [hfind, Option.none_or] at hsome
        have hloop := run_findLoop_none sh h hdots hfit hfuel hbelow hslots' (hpath.step hl)
          hdepth' (List.find?_eq_none.mp hfind)
        have hrec := run_findRecursive_none h hfit hfuel hpath (h.linked hl).parentCluster hloop
        rw [run_findLoop_into h hdots hfit hfuel hpath hl hname hrec]
        exact ih hrestSlots hpath hdepth hsome
      | some e =>
        rw [hfind, Option.some_or] at hsome
        obtain ⟨names', hfound, b, names'', returned, hb, hloop⟩ :=
          ihbelow hslots' (hpath.step hl) hdepth' (hfind.trans hsome)
        let s' : System := ⟨s.storage, s.output ++
          foundLines (pathChars names' ++ entryName (s.storage.volume.table d j))⟩
        obtain ⟨b', names₃, hb', hrec⟩ := run_findRecursive_some s' h hfit hfuel hb hloop
        obtain ⟨b'', names₄, returned', hb'', hrun⟩ :=
          run_findLoop_found s' h hdots hfit hfuel depth hb' hrestSlots
        refine ⟨names', hfound, b'', names₄, returned', hb'', ?_⟩
        rw [run_findLoop_into h hdots hfit hfuel hpath hl hname hrec]
        exact hrun

end Search

/-- A search sees the same in both entries. -/
def SeenAlike (e e' : DirectoryEntry) : Prop :=
  (e.Live ↔ e'.Live) ∧ (e.Live → entryName e = entryName e' ∧ (e.IsFolder ↔ e'.IsFolder))

/-- A search in the table of the entry ends here, or goes on in a table read again. -/
def Stops (filename : StringN) (e : DirectoryEntry) : Prop :=
  e.Live ∧ (strcmp (entryName e) filename.buf ∨ e.IsFolder)

/-- As far as a search reads the first table, it sees the second. -/
def CopySuffices (filename : StringN) (t t' : DirectoryTable) : Prop :=
  ∀ i, 2 ≤ i → (∀ k, 2 ≤ k → k < i → ¬Stops filename (t k)) → SeenAlike (t i) (t' i)

theorem copySuffices_self (filename : StringN) (t : DirectoryTable) : CopySuffices filename t t :=
  fun _ _ _ => ⟨Iff.rfl, fun _ => ⟨rfl, Iff.rfl⟩⟩

section Copy
variable (sh : Globals) {s₀ : Storage} {s : System} {filename : StringN} {fuel : ℕ}

theorem run_descend_copy (h₀ : Image s₀) (h : Image s.storage) (hdots : NoDots s.storage.volume)
    (hfit : PathsFit s.storage.volume) {i : Fin 64} {c : Cell} (he₀ : s₀.volume.LiveEntry 2 i)
    (hfolder : (s₀.volume.table 2 i).IsFolder) (hl : s.storage.volume.Lists 2 i c)
    (hname : entryName (s₀.volume.table 2 i) = entryName (s.storage.volume.table 2 i))
    (hfuel : 255 ≤ fuel) :
    run (cd fuel ⟨entryName (s₀.volume.table 2 i)⟩ false (sh.inDirectory s₀.volume 2 [])) s =
      .ok (sh.inDirectory s.storage.volume c
        ([] ++ [nameChars (s.storage.volume.table 2 i).name]), s) := by
  have hw := h₀.word_of_live he₀
  have hslot : cdSlot ⟨entryName (s₀.volume.table 2 i)⟩ (s₀.volume.table 2) = some i := by
    rw [h₀.cdSlot_eq .refl hw]
    exact (h₀.findEntry_eq_some .refl hw).mpr ⟨he₀.slot, h₀.names_of_live he₀⟩
  have hf : Plain ⟨entryName (s₀.volume.table 2 i)⟩ :=
    ⟨hw, fun heq => (hdots _ _ _ hl).1 (hname.symm.trans heq),
      fun heq => (hdots _ _ _ hl).2 (hname.symm.trans heq)⟩
  have hn : Names ⟨entryName (s₀.volume.table 2 i)⟩ (s.storage.volume.table 2 i) :=
    (h.names_iff .refl he₀.slot hw).mp hname.symm
  have hpath := PathTo.root.step hl
  have hcluster : (sh.inDirectory s₀.volume 2 []).currentDirCluster = Cell.number 2 := rfl
  have hdown : run (cd fuel _ false (sh.inDirectory s₀.volume 2 [])) s =
      run (arrive fuel false s.storage.volume c (sh.inDirectory s₀.volume 2 [])) s :=
    run_cd_named hf h hcluster hslot hfolder hl hn fuel
  exact hdown.trans (run_arrive_quiet _ h hpath (lt_of_lt_of_le (hfit.levels h hpath) hfuel)
    (hfit.directory h hpath))

/-- In the old table the search comes as far as in the new one, or gets from both into the same
subdirectory. -/
theorem run_findLoop_copy (h₀ : Image s₀) (h : Image s.storage) (hdots : NoDots s.storage.volume)
    (hfit : PathsFit s.storage.volume) (hfuel : 255 ≤ fuel)
    (recurse : Globals → Bool → Prog (Globals × Bool)) {l : List (Fin 64)} (hsorted : l.Pairwise (· < ·)) (hslots : ∀ i ∈ l, 2 ≤ i)
    (hcopy : ∀ i ∈ l, (∀ k ∈ l, k < i → ¬Stops filename (s₀.volume.table 2 k)) →
      SeenAlike (s₀.volume.table 2 i) (s.storage.volume.table 2 i)) :
    run (findLoop fuel filename recurse l (sh.inDirectory s₀.volume 2 []) false) s =
        run (findLoop fuel filename recurse l (sh.inDirectory s.storage.volume 2 []) false) s ∨
      ∃ found s', (found = false → s' = s) ∧
        run (findLoop fuel filename recurse l (sh.inDirectory s₀.volume 2 []) false) s =
          .ok ((sh.inDirectory s₀.volume 2 [], found, found), s') ∧
        run (findLoop fuel filename recurse l (sh.inDirectory s.storage.volume 2 []) false) s =
          .ok ((sh.inDirectory s.storage.volume 2 [], found, found), s') := by
  induction l with
  | nil => exact .inr ⟨false, s, fun _ => rfl, rfl, rfl⟩
  | cons i rest ih =>
    let old := sh.inDirectory s₀.volume 2 []
    let new := sh.inDirectory s.storage.volume 2 []
    obtain ⟨hfirst, hsorted⟩ := List.pairwise_cons.mp hsorted
    have hi := hslots i List.mem_cons_self
    have hnone : ∀ k ∈ i :: rest, k < i → ¬Stops filename (s₀.volume.table 2 k) := by
      intro k hk hlt
      rcases List.mem_cons.mp hk with rfl | hk
      · exact absurd hlt (lt_irrefl k)
      · exact absurd (hfirst k hk) (lt_asymm hlt)
    obtain ⟨hlive, hseen⟩ := hcopy i List.mem_cons_self hnone
    have hnext : ¬Stops filename (s₀.volume.table 2 i) → _ := fun hgo =>
      ih hsorted (fun j hj => hslots j (List.mem_cons_of_mem i hj)) fun j hj hbefore => by
        refine hcopy j (List.mem_cons_of_mem i hj) fun k hk hlt => ?_
        rcases List.mem_cons.mp hk with rfl | hk
        · exact hgo
        · exact hbefore k hk hlt
    by_cases hold : (s₀.volume.table 2 i).Live
    · obtain ⟨hname, hfolder⟩ := hseen hold
      have he : s.storage.volume.LiveEntry 2 i := ⟨.refl, hi, hlive.mp hold⟩
      have hcarries : strcmp (entryName (s₀.volume.table 2 i)) filename.buf =
          Carries s.storage.volume filename (2, i) := by rw [hname, Carries]
      by_cases hfound : Carries s.storage.volume filename (2, i)
      · -- both print the same path
        have hnew : run (findLoop fuel filename recurse (i :: rest) new false) s = _ :=
          run_findLoop_here hfit .root he hfound
        have hprint : run (printFound old (s₀.volume.table 2 i)) s = _ := run_printFound old (by
          rw [hname]
          exact hfit _ _ _ he .root)
        rw [hname] at hprint
        exact .inr ⟨true, _, by rintro ⟨⟩, (run_findLoop_named old hold (hcarries.trans hfound)).trans
          (run_bind_ok hprint), hnew⟩
      by_cases hdir : (s₀.volume.table 2 i).IsFolder
      · obtain ⟨c, -, hc, -⟩ := h.wellFormed.folder_chain he (hfolder.mp hdir)
        have hl : s.storage.volume.Lists 2 i c := ⟨he, hfolder.mp hdir, hc⟩
        have he₀ : s₀.volume.LiveEntry 2 i := ⟨.refl, hi, hold⟩
        have hold' := run_descend_copy sh h₀ h hdots hfit he₀ hdir hl hname hfuel
        have hnew' : run (cd fuel ⟨entryName (new.currentDir i)⟩ false new) s = _ :=
          run_descend h hdots hfit .root hl hfuel
        refine .inl ((run_findLoop_folder old hold (hcarries ▸ hfound) hdir
          (h₀.word_of_live he₀)).trans ((run_bind_ok hold').trans (Eq.symm ?_)))
        refine (run_findLoop_folder new he.live hfound hl.folder (h.word_of_live he)).trans ?_
        exact run_bind_ok hnew'
      · have hgo : ¬Stops filename (s₀.volume.table 2 i) :=
          fun hstops => hstops.2.elim (hcarries ▸ hfound) hdir
        rw [findLoop_file old (hcarries ▸ hfound) hdir, findLoop_file new hfound (hfolder.not.mp hdir)]
        exact hnext hgo
    · rw [findLoop_free old hold, findLoop_free new (hlive.not.mp hold)]
      exact hnext fun hstops => hold hstops.1

/-- A search from the old root reports what a search from the new root reports. -/
theorem run_findRecursive_copy (h₀ : Image s₀) (h : Image s.storage) (hdots : NoDots s.storage.volume)
    (hfit : PathsFit s.storage.volume) (hfuel : 255 ≤ fuel)
    (hcopy : CopySuffices filename (s₀.volume.table 2) (s.storage.volume.table 2)) {depth : ℕ}
    {sh' : Globals} {found : Bool} {s' : System} (hstrayed : Strayed sh sh')
    (hrun : run (findRecursive fuel filename (depth + 1) (sh.inDirectory s.storage.volume 2 []) false)
      s = .ok ((sh', found), s')) : ∃ sh'', Strayed sh sh'' ∧
      run (findRecursive fuel filename (depth + 1) (sh.inDirectory s₀.volume 2 []) false) s =
        .ok ((sh'', found), s') := by
  have hsorted : slots.Pairwise (· < ·) := (List.pairwise_lt_finRange 64).drop
  have hslots : ∀ i ∈ slots, 2 ≤ i := fun i hi => mem_slots.mp hi
  have hsuffices : ∀ i ∈ slots, (∀ k ∈ slots, k < i → ¬Stops filename (s₀.volume.table 2 k)) →
      SeenAlike (s₀.volume.table 2 i) (s.storage.volume.table 2 i) := fun i hi hbefore =>
    hcopy i (mem_slots.mp hi) fun k hk => hbefore k (mem_slots.mpr hk)
  rcases run_findLoop_copy sh h₀ h hdots hfit hfuel (findRecursive fuel filename depth) hsorted hslots
    hsuffices with heq | ⟨b, s₁, hsame, hold, hnew⟩
  · exact ⟨sh', hstrayed, (Program.run_bind_congr heq).trans hrun⟩
  cases b with
  | true =>
    have hend : run (findRecursive fuel filename (depth + 1) (sh.inDirectory s.storage.volume 2 [])
        false) s = .ok ((_, true), s₁) := run_bind_ok hnew
    obtain ⟨hpair, rfl⟩ := Prod.mk.inj (Except.ok.inj (hrun.symm.trans hend))
    obtain ⟨-, rfl⟩ := Prod.mk.inj hpair
    exact ⟨_, ⟨_, _, _, rfl⟩, run_bind_ok hold⟩
  | false =>
    obtain rfl := hsame rfl
    have hupNew : run (cd fuel ⟨ascii ".."⟩ false (sh.inDirectory s₁.storage.volume 2 [])) s₁ =
        .ok (sh.inDirectory s₁.storage.volume 2 [], s₁) :=
      run_leave h hfit .root h.rootLinks.parentCluster hfuel
    have hupOld : run (cd fuel ⟨ascii ".."⟩ false (sh.inDirectory s₀.volume 2 [])) s₁ =
        .ok (sh.inDirectory s₁.storage.volume 2 [], s₁) :=
      run_leave h hfit .root h₀.rootLinks.parentCluster hfuel
    have hend : run (findRecursive fuel filename (depth + 1) (sh.inDirectory s₁.storage.volume 2 [])
        false) s₁ = .ok ((_, false), s₁) := (run_bind_ok hnew).trans (run_bind_ok hupNew)
    obtain ⟨hpair, rfl⟩ := Prod.mk.inj (Except.ok.inj (hrun.symm.trans hend))
    obtain ⟨-, rfl⟩ := Prod.mk.inj hpair
    exact ⟨_, ⟨_, _, _, rfl⟩, (run_bind_ok hold).trans (run_bind_ok hupOld)⟩

/-- `find` gives back the globals it started with, whatever the search has left in them. -/
theorem run_find (hroot : RootCopy sh (s₀.volume.table 2)) {sh' : Globals} {found : Bool}
    {s' : System} (hstrayed : Strayed sh sh')
    (hrun : run (findRecursive fuel filename fuel (sh.inDirectory s₀.volume 2 []) false) s =
      .ok ((sh', found), s')) : run (find fuel filename sh) s =
      run (printIf (!found) (puts (ascii "find: File/folder not found in filesystem!") biosLightRed) >>=
        fun _ => pure sh) s' := by
  have hstart : { sh with
      currentDir := sh.rootDir
      currentDirPath := sh.rootDirPath
      currentDirCluster := sh.rootDirCluster } = sh.inDirectory s₀.volume 2 [] := by
    change _ = { sh with
      currentDir := s₀.volume.table 2
      currentDirPath := ⟨ascii "./"⟩
      currentDirCluster := rootClusterNumber }
    rw [← hroot.dir, ← hroot.path, ← hroot.cluster]
  rw [find, hstart, run_bind_ok hrun]
  obtain ⟨_, _, _, rfl⟩ := hstrayed
  rfl

end Copy

def Report (v : Volume) (filename : StringN) (visited : List (Cell × Fin 64))
    (output : List PutsArgs) : Prop :=
  match visited.find? (Carries v filename) with
  | none => output = notFoundLines
  | some (d, i) => ∃ names, PathTo v d names ∧
      output = foundLines (pathChars names ++ entryName (v.table d i))

/-- The search reports the first live entry of that name in preorder, if there is one, and leaves
the shell and the disk as they were. -/
theorem run_find_report {s₀ : Storage} {sh : Globals} {s : System} (h₀ : Image s₀)
    (h : Image s.storage) (hroot : RootCopy sh (s₀.volume.table 2)) (hdots : NoDots s.storage.volume)
    (hfit : PathsFit s.storage.volume) {filename : StringN}
    (hcopy : CopySuffices filename (s₀.volume.table 2) (s.storage.volume.table 2))
    {visited : List (Cell × Fin 64)} (hv : Preorder s.storage.volume visited) :
    ∃ output, Report s.storage.volume filename visited output ∧ ∀ fuel, 256 < fuel →
      run (find fuel filename sh) s = .ok (sh, ⟨s.storage, s.output ++ output⟩) := by
  have hslots : ∀ i ∈ slots, 2 ≤ i := fun i hi => mem_slots.mp hi
  cases hfind : visited.find? (Carries s.storage.volume filename) with
  | none =>
    refine ⟨notFoundLines, by simp only [Report, hfind], fun fuel hfuel => ?_⟩
    obtain ⟨depth, rfl⟩ := Nat.exists_eq_add_of_lt hfuel
    have hfuel : 255 ≤ 256 + depth + 1 := by omega
    have hloop := run_findLoop_none sh h hdots hfit hfuel hv hslots .root
      (show 256 ≤ 256 + depth + List.length [] by omega) (List.find?_eq_none.mp hfind)
    have hrec := run_findRecursive_none h hfit hfuel .root h.rootLinks.parentCluster hloop
    obtain ⟨sh', hstrayed, hold⟩ := run_findRecursive_copy sh h₀ h hdots hfit hfuel hcopy
      ⟨_, _, _, rfl⟩ hrec
    exact run_find sh hroot hstrayed hold
  | some e =>
    obtain ⟨d, i⟩ := e
    have hsearch : ∀ depth fuel, 256 ≤ depth → 255 ≤ fuel → ∃ names, PathTo s.storage.volume d names ∧
        ∃ sh', Strayed sh sh' ∧ run (findRecursive fuel filename (depth + 1)
          (sh.inDirectory s.storage.volume 2 []) false) s = .ok ((sh', true), ⟨s.storage, s.output ++
            foundLines (pathChars names ++ entryName (s.storage.volume.table d i))⟩) := by
      intro depth fuel hdepth hfuel
      obtain ⟨names, hpath, b, names', returned, hb, hloop⟩ :=
        run_findLoop_some h hdots hfit hfuel hv hslots .root hdepth hfind
      let s' : System := ⟨s.storage, s.output ++
        foundLines (pathChars names ++ entryName (s.storage.volume.table d i))⟩
      obtain ⟨b', names'', -, hrec⟩ := run_findRecursive_some s' h hfit hfuel hb hloop
      exact ⟨names, hpath, _, ⟨_, _, _, rfl⟩, hrec⟩
    obtain ⟨names, hpath, -⟩ := hsearch 256 255 le_rfl le_rfl
    refine ⟨foundLines (pathChars names ++ entryName (s.storage.volume.table d i)), ?_,
      fun fuel hfuel => ?_⟩
    · simp only [Report, hfind]
      exact ⟨names, hpath, rfl⟩
    · obtain ⟨depth, rfl⟩ := Nat.exists_eq_add_of_lt hfuel
      obtain ⟨names', hpath', sh', hstrayed, hrec⟩ :=
        hsearch (256 + depth) (256 + depth + 1) (by omega) (by omega)
      obtain rfl := hpath.unique h.wellFormed hpath'
      obtain ⟨sh'', hstrayed', hold⟩ :=
        run_findRecursive_copy sh h₀ h hdots hfit (by omega) hcopy hstrayed hrec
      exact run_find sh hroot hstrayed' hold

/-- In every guarded session of one shell, as long as the copy of the root shows what the search
reads of it, no folder is called `.` or `..` and the paths fit: `find` ends, reports the first live
entry of that name in preorder or that there is none, and changes neither the shell nor the disk. -/
theorem guardedSession_find {s₀ : Storage} (h₀ : Image s₀) {σ₀ σ : Globals × System}
    (hboot : Boots s₀ σ₀) (h : Run GuardedCommand σ₀ σ) (filename : StringN)
    (hcopy : CopySuffices filename σ.1.rootDir (σ.2.storage.volume.table 2))
    (hdots : NoDots σ.2.storage.volume) (hfit : PathsFit σ.2.storage.volume) :
    ∃ visited, Preorder σ.2.storage.volume visited ∧
      (∀ d i, (d, i) ∈ visited ↔ σ.2.storage.volume.LiveEntry d i) ∧
      ∃ output, Report σ.2.storage.volume filename visited output ∧ ∀ fuel, 256 < fuel →
        run (find fuel filename σ.1) σ.2 = .ok (σ.1, ⟨σ.2.storage, σ.2.output ++ output⟩) := by
  obtain ⟨⟨p, hp⟩, hroot⟩ := guardedSession_keeps h₀ hboot h
  obtain ⟨visited, hv⟩ := exists_preorder hp.wellFormed
  rw [hroot.dir] at hcopy
  exact ⟨visited, hv, mem_preorder hv,
    run_find_report h₀ hp.toImage hroot hdots hfit hcopy hv⟩

section FolderA
variable {s : Storage} {k : Fin 64} {c : Cell}

theorem Made.only
    (hmade : Made (recordRoot (createFat32 blankStorage)) s 2 nameA k c) {d : Cell} {i : Fin 64}
    (he : s.volume.LiveEntry d i) : d = 2 ∧ i = k := by
  have hroot : ∀ j, 2 ≤ j → (s.volume.table 2 j).Live → j = k := by
    intro j hj hlive
    by_contra hne
    rw [hmade.others j hne] at hlive
    exact (recordRoot_fresh blankStorage).not_live hj hlive
  have hexisting : ∀ {b}, s.volume.Existing b → b = 2 ∨ b = c := by
    intro b hd
    induction hd with
    | refl => exact .inl rfl
    | tail hb hbd ih =>
      obtain ⟨j, hj, hlive, -, hcluster⟩ := hbd
      rcases ih with rfl | rfl
      · obtain rfl := hroot j hj hlive
        exact .inr (Cell.number_injective (hcluster.symm.trans hmade.lists.cluster))
      · exact absurd hlive (hmade.fresh.not_live hj)
  rcases hexisting he.existing with rfl | rfl
  · exact ⟨rfl, hroot i he.slot he.live⟩
  · exact absurd he.live (hmade.fresh.not_live he.slot)

theorem Made.noDots
    (hmade : Made (recordRoot (createFat32 blankStorage)) s 2 nameA k c) : NoDots s.volume := by
  intro d i b hl
  obtain ⟨rfl, rfl⟩ := hmade.only hl.toLiveEntry
  rw [hmade.named.entryName nameA_word]
  exact ⟨by decide, by decide⟩

theorem Made.pathsFit (h : Image s)
    (hmade : Made (recordRoot (createFat32 blankStorage)) s 2 nameA k c) : PathsFit s.volume := by
  intro d i names he hpath
  obtain ⟨rfl, rfl⟩ := hmade.only he
  rw [hpath.unique h.wellFormed .root, hmade.named.entryName nameA_word]
  decide

end FolderA

theorem guardedSession_find_folderA : ∃ (σ : Globals × System) (k : Fin 64) (c : Cell)
    (visited : List (Cell × Fin 64)) (output : List PutsArgs),
    σ.2.storage.volume.Lists 2 k c ∧ Report σ.2.storage.volume nameA visited output ∧
    run (find 257 nameA σ.1) σ.2 = .ok (σ.1, ⟨σ.2.storage, σ.2.output ++ output⟩) := by
  obtain ⟨-, σ, k, c, -, -, hp, hmade⟩ := session_mkdir nameA_word (by decide)
  have himage := hp.toImage
  obtain ⟨sh, hboot⟩ := himage.boots σ.1 []
  obtain ⟨-, -, hroot⟩ := boots_inStep himage hboot
  obtain ⟨visited, -, -, output, hreport, hfind⟩ := guardedSession_find himage hboot (.refl _) nameA
    (hroot.dir ▸ copySuffices_self nameA _) (hmade.noDots) (hmade.pathsFit himage)
  exact ⟨(sh, ⟨σ.2.storage, []⟩), k, c, visited, output, hmade.lists, hreport,
    hfind 257 (by decide)⟩

/-- A folder made after the shell has started is not found. -/
theorem find_folderA_missed : ∃ (σ₀ σ : Globals × System) (k : Fin 64) (c : Cell),
    Boots (recordRoot (createFat32 blankStorage)) σ₀ ∧ GuardedCommand σ₀ (.mkdir nameA) σ ∧
    NoDots σ.2.storage.volume ∧ PathsFit σ.2.storage.volume ∧
    σ.2.storage.volume.Lists 2 k c ∧ Carries σ.2.storage.volume nameA (2, k) ∧
    ∀ fuel, 256 < fuel → run (find fuel nameA σ.1) σ.2 =
      .ok (σ.1, ⟨σ.2.storage, σ.2.output ++ notFoundLines⟩) := by
  obtain ⟨σ₀, σ, k, c, hboot, hcmd, hp, hmade⟩ := boots_mkdir nameA_word (by decide)
  have h₀ := recordRoot_image blankStorage
  obtain ⟨-, hroot⟩ := guardedSession_keeps h₀ hboot ((Run.refl _).tail hcmd)
  have hnoDots := hmade.noDots
  have hfit := hmade.pathsFit hp.toImage
  refine ⟨σ₀, σ, k, c, hboot, hcmd, hnoDots, hfit, hmade.lists,
    strcmp_iff.mpr (hmade.named.entryName nameA_word), fun fuel hfuel => ?_⟩
  obtain ⟨depth, rfl⟩ := Nat.exists_eq_add_of_lt hfuel
  let start := σ.1.inDirectory (recordRoot (createFat32 blankStorage)).volume 2 []
  have hloop : run (findLoop (256 + depth + 1) nameA (findRecursive (256 + depth + 1) nameA
      (256 + depth)) slots start false) σ.2 = .ok ((start, false, false), σ.2) := by
    rw [findLoop_allFree start fun i hi =>
      (recordRoot_fresh blankStorage).not_live (mem_slots.mp hi)]
    rfl
  have hup : run (cd (256 + depth + 1) ⟨ascii ".."⟩ false start) σ.2 = _ :=
    run_leave hp.toImage hfit .root h₀.rootLinks.parentCluster (by omega)
  have hrec : run (findRecursive (256 + depth + 1) nameA (256 + depth + 1) start false) σ.2 =
      .ok ((_, false), σ.2) := (run_bind_ok hloop).trans (run_bind_ok hup)
  exact run_find σ.1 hroot ⟨_, _, _, rfl⟩ hrec

end Os2024.Shell
