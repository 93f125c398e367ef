import Os2024.Shell.PathReconstruction

/-! # Paths down and up

The path of a directory consists of the names under which the directories above it
list one another. `create_path_recursive` gives it back from the link slots, and
looking its names up from the root leads to the directory.
-/

namespace Os2024.Shell
open Library.PackedLayout Library.CallTrees Library.Runs FileSystem FileSystem.Volume

/-- The names on the way down to the directory in cluster `c`. -/
inductive PathTo (v : Volume) : Cell → List (List UInt8) → Prop
  | root : PathTo v 2 []
  | step {d c : Cell} {i : Fin 64} {names : List (List UInt8)} (h : PathTo v d names)
      (hl : v.Lists d i c) : PathTo v c (names ++ [nameChars (v.table d i).name])

/-- `./n1/n2/.../nk/` -/
def pathChars (names : List (List UInt8)) : List UInt8 :=
  ascii "./" ++ names.flatMap fun name => name ++ ascii "/"

theorem pathChars_concat (names : List (List UInt8)) (name : List UInt8) :
    pathChars (names ++ [name]) = pathChars names ++ (name ++ ascii "/") := by
  rw [pathChars, List.flatMap_append, ← List.append_assoc, ← pathChars, List.flatMap_singleton]

namespace PathTo
variable {v : Volume} {c : Cell} {names : List (List UInt8)}

theorem existing (h : PathTo v c names) : v.Existing c := by
  cases h with
  | root => exact .refl
  | step _ hl => exact hl.existing_child

theorem unique (h : PathTo v c names) (hv : v.WellFormed) {names' : List (List UInt8)}
    (h' : PathTo v c names') : names = names' := by
  induction h generalizing names' with
  | root =>
    cases h' with
    | root => rfl
    | step _ hl => exact absurd rfl (hl.child_ne_root hv)
  | step h hl ih =>
    cases h' with
    | root => exact absurd rfl (hl.child_ne_root hv)
    | step h' hl' =>
      obtain ⟨rfl, rfl⟩ := hl.unique hv hl'
      rw [ih h']

end PathTo

theorem exists_pathTo {v : Volume} {c : Cell} (h : v.Existing c) : ∃ names, PathTo v c names := by
  induction h with
  | refl => exact ⟨[], .root⟩
  | tail hb hbc ih =>
    obtain ⟨names, hpath⟩ := ih
    obtain ⟨i, hi, hlive, hfolder, hc⟩ := hbc
    exact ⟨_, hpath.step ⟨⟨hb, hi, hlive⟩, hfolder, hc⟩⟩

theorem run_readTable (c : Cell) (s : System) :
    run (readTable c.number) s = .ok (s.storage.volume.table c, s) := rfl

theorem strings_of_selfLink {v : Volume} {d c : Cell} {e : DirectoryEntry} (h : v.LinksOf d c e) :
    entryName (v.table c 0) = nameChars e.name := by
  rw [entryName_eq (by rw [h.selfExt]), h.selfName, nameChars_copyName]

theorem run_createPathRecursive_succ {s : System} {c d : Cell} {name : List UInt8} (hc : c ≠ 2)
    (hlen : name.length ≤ 8) (h0 : ∀ x ∈ name, x ≠ 0)
    (hname : entryName (s.storage.volume.table c 0) = name)
    (hd : (s.storage.volume.table c 1).cluster = d.number) (fuel : ℕ) :
    run (createPathRecursive (fuel + 1) c.number) s =
      run (createPathRecursive fuel d.number >>= fun parentPath =>
        .ofExcept (parentPath.appendstr (name ++ ascii "/"))) s := by
  have hroot : c.number ≠ rootClusterNumber := fun heq => hc (Cell.number_injective heq)
  have hown : StringN.create.appendstr name = .ok ⟨name⟩ :=
    StringN.appendstr_ok (by rw [StringN.create, StringN.len, List.length_nil]; omega)
  have hslash : StringN.appendchar ⟨name⟩ '/'.toUInt8 = .ok ⟨name ++ ascii "/"⟩ :=
    if_pos (by rw [StringN.len_mk]; omega)
  have hbuf : StringN.buf ⟨name ++ ascii "/"⟩ = name ++ ascii "/" := by
    refine cString_of_ne_zero fun x hx => ?_
    rcases List.mem_append.mp hx with hx | hx
    · exact h0 x hx
    · rw [List.mem_singleton.mp hx]
      decide
  rw [createPathRecursive, if_neg hroot, run_bind_ok (run_readTable c s), hname, hown,
    run_bind_ok (run_ofExcept _), hslash, run_bind_ok (run_ofExcept _), hd, hbuf]

/-- The recursion climbs to the root and puts the names together, as far as they fit. -/
theorem run_createPathRecursive {s : System} (hs : s.storage.volume.WellFormed)
    (hlinked : s.storage.volume.Linked) {c : Cell} {names : List (List UInt8)}
    (h : PathTo s.storage.volume c names) {fuel : ℕ} (hfuel : names.length < fuel) :
    run (createPathRecursive fuel c.number) s =
      if (pathChars names).length ≤ 256 then .ok (⟨pathChars names⟩, s)
      else .error .outOfBounds := by
  induction h generalizing fuel with
  | root =>
    cases fuel with
    | zero => exact absurd hfuel (Nat.not_lt_zero _)
    | succ fuel => rfl
  | @step d c i names h hl ih =>
    rw [List.length_append, List.length_singleton] at hfuel
    cases fuel with
    | zero => omega
    | succ fuel =>
      have hlinks := hlinked hl
      rw [run_createPathRecursive_succ (hl.child_ne_root hs) (nameChars_length _)
        (fun _ => ne_zero_of_mem_cString) (strings_of_selfLink hlinks) hlinks.parentCluster fuel,
        pathChars_concat]
      have hparent := ih (show names.length < fuel by omega)
      by_cases hfit : (pathChars names).length ≤ 256
      · rw [if_pos hfit] at hparent
        rw [run_bind_ok hparent, run_ofExcept]
        have hfit' : StringN.len ⟨pathChars names⟩ ≤ 256 := hfit
        split_ifs with hall
        · rw [List.length_append, ← StringN.len_mk] at hall
          rw [StringN.appendstr_ok hall]
          rfl
        · rw [List.length_append, ← StringN.len_mk, not_le] at hall
          rw [StringN.appendstr_error hfit' hall]
          rfl
      · rw [if_neg hfit] at hparent
        rw [run_bind_error hparent, if_neg]
        rw [List.length_append]
        omega

/-- A name of one to eight characters and no extension. -/
structure TidyName (name : Bytes 8) (ext : Bytes 3) : Prop where
  padded : Padded name
  nonempty : name 0 ≠ 0
  ext : ext = fun _ => 0

def Tidy (v : Volume) : Prop :=
  ∀ {d i}, v.LiveEntry d i → TidyName (v.table d i).name (v.table d i).ext

theorem TidyName.entryName {e : DirectoryEntry} (h : TidyName e.name e.ext) :
    entryName e = nameChars e.name := entryName_eq (by rw [h.ext])

/-- In a tidy directory the characters of a name single out its entry. -/
theorem Tidy.unique {v : Volume} (h : Tidy v) (hv : v.WellFormed) {d : Cell} {i j : Fin 64}
    (hi : v.LiveEntry d i) (hj : v.LiveEntry d j)
    (hname : entryName (v.table d i) = entryName (v.table d j)) : i = j := by
  rw [(h hi).entryName, (h hj).entryName] at hname
  exact hv.names hi.existing i j hi.slot hi.live hj.live ((h hi).padded.inj (h hj).padded hname)
    ((h hi).ext.trans (h hj).ext.symm)

def lookupPath (s : Storage) (cluster : UInt32) : List (List UInt8) → Option UInt32
  | [] => some cluster
  | name :: rest =>
    let dirTable := s.directoryTable cluster
    match ((List.finRange 64).drop 2).find?
        (fun i => (dirTable i).Live ∧ entryName (dirTable i) = name) with
    | none => none
    | some i => lookupPath s (dirTable i).cluster rest

theorem lookupPath_append (s : Storage) (cluster : UInt32) (names names' : List (List UInt8)) :
    lookupPath s cluster (names ++ names') =
      (lookupPath s cluster names).bind fun n => lookupPath s n names' := by
  induction names generalizing cluster with
  | nil => rfl
  | cons name names ih =>
    rw [List.cons_append, lookupPath, lookupPath]
    split
    · rfl
    · exact ih _

theorem lookupPath_step {s : Storage} (hs : s.volume.WellFormed) (ht : Tidy s.volume) {d c : Cell}
    {i : Fin 64} (hl : s.volume.Lists d i c) :
    lookupPath s d.number [nameChars (s.volume.table d i).name] = some c.number := by
  have hname := (ht hl.toLiveEntry).entryName
  rw [lookupPath, directoryTable_number]
  cases hfind : ((List.finRange 64).drop 2).find? (fun j => (s.volume.table d j).Live ∧
      entryName (s.volume.table d j) = nameChars (s.volume.table d i).name) with
  | none =>
    have hnone := List.find?_eq_none.mp hfind i (mem_drop_two.mpr hl.slot)
    exact absurd (decide_eq_true ⟨hl.live, hname⟩) hnone
  | some j =>
    have hj := mem_drop_two.mp (List.mem_of_find?_eq_some hfind)
    have hfound := List.find?_some hfind
    obtain ⟨hlive, hname'⟩ := of_decide_eq_true hfound
    obtain rfl := ht.unique hs hl.toLiveEntry ⟨hl.existing, hj, hlive⟩ (hname.trans hname'.symm)
    exact congrArg some hl.cluster

theorem lookupPath_eq {s : Storage} (hs : s.volume.WellFormed) (ht : Tidy s.volume) {c : Cell}
    {names : List (List UInt8)} (h : PathTo s.volume c names) :
    lookupPath s rootClusterNumber names = some c.number := by
  induction h with
  | root => rfl
  | step h hl ih =>
    rw [lookupPath_append, ih, Option.bind_some, lookupPath_step hs ht hl]

def TidyStep (s : Storage) (call : Call) (s' : Storage) : Prop :=
  ValidStep s call s' ∧
    ∀ mem request, call = .write mem request → TidyName request.name request.ext

theorem createFat32_tidy (s : Storage) : Tidy (createFat32 s).volume :=
  fun he => absurd he (not_liveEntry_of_fresh (createFat32_root s) _ _)

theorem tidy_of_effect {p : Cell} {call : Call} {s s' : Storage} (h : Effect p call s s')
    (hs : s.Consistent) (hp : s.volume.Existing p)
    (hcall : ∀ mem request, call = .write mem request → TidyName request.name request.ext)
    (ht : Tidy s.volume) : Tidy s'.volume := by
  intro d i he
  rcases (h.change hs).liveEntry_cases hs hp he with
    ⟨he', heq⟩ | ⟨mem, request, c, rest, hwrite, hdp, w, hv⟩
  · rw [heq]
    exact ht he'
  · subst d
    rw [hv, writeResult_entry]
    exact hcall mem request hwrite

structure TidyLinks (s : Storage) : Prop extends LinkSlots s where
  tidy : Tidy s.volume

theorem tidyLinks_of_run {s₀ s : Storage} (h : Run TidyStep (createFat32 s₀) s) : TidyLinks s := by
  refine h.invariant ⟨createFat32_linkSlots s₀, createFat32_tidy s₀⟩ fun s call s' hs hstep => ?_
  obtain ⟨p, -, hp, heff⟩ := hstep.1.effect hs.toConsistent
  exact ⟨hs.toLinkSlots.step hstep.1, tidy_of_effect heff hs.toConsistent hp hstep.2 hs.tidy⟩

/-- In every run with tidy names, each directory has one path, the recursion of the shell returns
that path if it fits, and the names of the path lead back. -/
theorem tidyRun_path (s₀ : Storage) {s : Storage} (h : Run TidyStep (createFat32 s₀) s) {c : Cell}
    (hc : s.volume.Existing c) : ∃ names, PathTo s.volume c names ∧
      (∀ names', PathTo s.volume c names' → names' = names) ∧
      lookupPath s rootClusterNumber names = some c.number ∧
      ((pathChars names).length ≤ 255 → ∀ output fuel, names.length < fuel →
        run (createPathRecursive fuel c.number) ⟨s, output⟩ =
          .ok (⟨pathChars names⟩, ⟨s, output⟩)) := by
  have hs := tidyLinks_of_run h
  obtain ⟨names, hpath⟩ := exists_pathTo hc
  refine ⟨names, hpath, fun names' h' => h'.unique hs.wellFormed hpath,
    lookupPath_eq hs.wellFormed hs.tidy hpath, fun hfit output fuel hfuel => ?_⟩
  have hrun := run_createPathRecursive (s := ⟨s, output⟩) hs.wellFormed hs.linked hpath hfuel
  rwa [if_pos (le_trans hfit (by decide))] at hrun

theorem tidyRun_path_folderA : ∃ s c, write (fun _ => 0) folderA (createFat32 blankStorage) = .ok (0, s) ∧
    run (createPathRecursive 2 (Cell.number c)) ⟨s, []⟩ = .ok (⟨ascii "./a/"⟩, ⟨s, []⟩) ∧
    lookupPath s rootClusterNumber [ascii "a"] = some c.number := by
  obtain ⟨s, i, c, hw, hstep, hl, hentry⟩ := write_folderA fun _ => 0
  have htidy : TidyStep (createFat32 blankStorage) (.write (fun _ => 0) folderA) s := by
    refine ⟨hstep, ?_⟩
    rintro mem request ⟨⟩
    exact ⟨padded_padName (by decide) (ne_zero_of_all (by decide)), by decide, rfl⟩
  obtain ⟨names, -, huniq, hlookup, hrun⟩ :=
    tidyRun_path blankStorage ((Run.refl _).tail htidy) hl.existing_child
  have hnames := huniq _ (PathTo.root.step hl)
  rw [hentry, List.nil_append] at hnames
  have hchars : nameChars (newEntry folderA c).name = ascii "a" :=
    nameChars_padName (by decide) (ne_zero_of_all (by decide))
  rw [hchars] at hnames
  subst hnames
  exact ⟨s, c, hw, hrun (by decide) [] 2 (by decide), hlookup⟩

end Os2024.Shell
