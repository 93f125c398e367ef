import Os2024.Shell.Commands
import Os2024.Shell.Lookup

/-! # The shell in step with the disk

Between its commands the shell holds the table of an existing directory. As long as
every name is tidy and the link slots are right, the searches of the shell and those
of the kernel find the same slots.
-/

namespace Os2024.Shell
open Library.PackedLayout Library.CallTrees Library.Runs FileSystem FileSystem.Volume

def Syscall.Quiet : Syscall → Prop
  | write _ _ | delete _ | writeCluster _ _ => False
  | _ => True

def Syscall.Silent : Syscall → Prop
  | readCluster _ => True
  | _ => False

theorem Syscall.Quiet.storage_eq {c : Syscall} (h : c.Quiet) {s s' : System} {a : c.Answer}
    (hexec : c.exec s = .ok (a, s')) : s'.storage = s.storage := by
  cases c with
  | read request mem =>
    rw [exec] at hexec
    cases hread : FileSystem.read request s.storage with
    | error f =>
      rw [hread] at hexec
      cases hexec
    | ok r =>
      rw [hread] at hexec
      obtain ⟨-, rfl⟩ := Prod.mk.inj (Except.ok.inj hexec)
      rfl
  | readDirectory _ | readCluster _ | puts _ =>
    obtain ⟨-, rfl⟩ := Prod.mk.inj (Except.ok.inj hexec)
    rfl
  | write _ _ | delete _ | writeCluster _ _ => exact h.elim

section Uses
variable {α : Type} {p : Prog α} {a : α} {s s' : System}

theorem storage_of_quiet (hp : p.Uses Syscall.Quiet) (h : run p s = .ok (a, s')) :
    s'.storage = s.storage :=
  Program.Uses.run_eq hp (fun _ hc _ _ _ hexec => hc.storage_eq hexec) h

theorem system_of_silent (hp : p.Uses Syscall.Silent) (h : run p s = .ok (a, s')) : s' = s := by
  refine Program.Uses.run_eq (f := id) hp (fun c hc s _ s' hexec => ?_) h
  cases c with
  | readCluster _ =>
    obtain ⟨-, rfl⟩ := Prod.mk.inj (Except.ok.inj hexec)
    rfl
  | _ => exact hc.elim

theorem puts_quiet (buf : List UInt8) (fgColor : UInt32) :
    (puts buf fgColor).Uses Syscall.Quiet := .perform trivial

theorem readCall_quiet (request : DriverRequest) (mem : Memory) :
    (readCall request mem).Uses Syscall.Quiet := ⟨trivial, fun _ => trivial⟩

theorem putsEach_quiet (fgColor : UInt32) (bufs : List (List UInt8)) :
    (putsEach fgColor bufs).Uses Syscall.Quiet := by
  induction bufs with
  | nil => trivial
  | cons buf rest ih => exact (puts_quiet buf fgColor).bind fun _ => ih

theorem printIf_quiet {print : Bool} {p : Prog Unit} (hp : p.Uses Syscall.Quiet) :
    (printIf print p).Uses Syscall.Quiet := by
  cases print with
  | true => exact hp
  | false => trivial

theorem printDone_quiet (text : String) (name : List UInt8) :
    (printDone text name).Uses Syscall.Quiet :=
  (puts_quiet _ _).bind fun _ => (puts_quiet _ _).bind fun _ => puts_quiet _ _

theorem printMkdir_quiet (folderName : StringN) (retcode : Int8) :
    (printMkdir folderName retcode).Uses Syscall.Quiet := by
  rw [printMkdir]
  split_ifs
  · exact putsEach_quiet _ _
  · exact putsEach_quiet _ _
  · trivial

theorem printRm_quiet (folder : StringN) (retcode : Int8) :
    (printRm folder retcode).Uses Syscall.Quiet := by
  rw [printRm]
  split_ifs
  · exact putsEach_quiet _ _
  · exact putsEach_quiet _ _
  · exact putsEach_quiet _ _
  · trivial

theorem printPrompt_quiet (sh : Globals) : (printPrompt sh).Uses Syscall.Quiet :=
  (puts_quiet _ _).bind fun _ => (Program.Uses.ofExcept _).bind fun _ =>
    (puts_quiet _ _).bind fun _ => puts_quiet _ _

theorem createPathRecursive_silent (fuel : ℕ) (cluster : UInt32) :
    (createPathRecursive fuel cluster).Uses Syscall.Silent := by
  induction fuel generalizing cluster with
  | zero => trivial
  | succ fuel ih =>
    rw [createPathRecursive]
    split_ifs
    · exact .ofExcept _
    · refine .bind (.bind (.perform trivial) fun _ => trivial) fun t => ?_
      exact .bind (.ofExcept _) fun _ => .bind (.ofExcept _) fun _ =>
        .bind (ih _) fun _ => .ofExcept _

end Uses

/-- A file system as the shell expects to find it: every name is tidy, and every directory, the
root with them, links to itself and to its parent. -/
structure Image (s : Storage) : Prop extends s.Consistent where
  linked : s.volume.Linked
  tidy : Tidy s.volume
  rootLinks : s.volume.LinksOf 2 2 (linkEntry rootName (Cell.number 2))

namespace Image
variable {s : Storage} {p : Cell}

theorem self (h : Image s) (hp : s.volume.Existing p) :
    (s.volume.table p 0).IsFolder ∧ (s.volume.table p 0).cluster = p.number := by
  rcases hp.listed with rfl | ⟨d, i, hl⟩
  · exact ⟨h.rootLinks.selfFolder, h.rootLinks.selfCluster⟩
  · exact ⟨(h.linked hl).selfFolder, (h.linked hl).selfCluster⟩

theorem parent (h : Image s) (hp : s.volume.Existing p) : ∃ d, s.volume.Existing d ∧
    (s.volume.table p 1).IsFolder ∧ (s.volume.table p 1).cluster = d.number := by
  rcases hp.listed with rfl | ⟨d, i, hl⟩
  · exact ⟨2, .refl, h.rootLinks.parentFolder, h.rootLinks.parentCluster⟩
  · exact ⟨d, hl.existing, (h.linked hl).parentFolder, (h.linked hl).parentCluster⟩

theorem of_effect {call : Call} {s' : Storage} (h : Image s) (hp : s.volume.Existing p)
    (hreq : call.request.parentClusterNumber = p.number)
    (hcall : ∀ mem request, call = .write mem request → TidyName request.name request.ext)
    (heff : Effect p call s s') : Image s' where
  toConsistent := heff.consistent h.toConsistent hp
  linked := heff.keeps_linked h.toConsistent hp hreq h.linked
  tidy := tidy_of_effect heff h.toConsistent hp hcall h.tidy
  rootLinks := h.rootLinks.congr (heff.link_slots h.toConsistent hp .refl .refl (by decide))
    (heff.link_slots h.toConsistent hp .refl .refl (by decide))

end Image

/-- The shell is in the existing directory `p` and has its table. -/
structure InStep (sh : Globals) (s : Storage) (p : Cell) : Prop extends Image s where
  existing : s.volume.Existing p
  cluster : sh.currentDirCluster = p.number
  table : sh.currentDir = s.volume.table p

def Globals.enter (sh : Globals) (v : Volume) (p : Cell) (path : StringN) : Globals :=
  { sh with currentDir := v.table p, currentDirPath := path, currentDirCluster := p.number }

theorem Image.inStep {s : Storage} {p : Cell} (h : Image s) (hp : s.volume.Existing p)
    (sh : Globals) (path : StringN) : InStep (sh.enter s.volume p path) s p := ⟨h, hp, rfl, rfl⟩

theorem run_createPath {sh : Globals} {s : System} {p : Cell} {fuel : ℕ}
    (hself : (s.storage.volume.table p 0).cluster = p.number)
    (h : sh.currentDir = s.storage.volume.table p) :
    run (createPath fuel (setCurrentCluster sh)) s =
      run (createPathRecursive fuel p.number >>= fun path =>
        pure (sh.enter s.storage.volume p path)) s := by
  have hcluster : (sh.currentDir 0).cluster = p.number := by rw [h, hself]
  rw [createPath, setCurrentCluster]
  dsimp only
  rw [hcluster]
  refine congrArg (run · s) (congrArg _ (funext fun path => ?_))
  rw [Globals.enter, ← h]

/-- An argument of a command: one to eight characters. -/
structure Word (str : StringN) : Prop where
  pos : 0 < str.len
  le : str.len ≤ 8
  ne_zero : ∀ c ∈ str.chars, c ≠ 0

namespace Word
variable {str : StringN}

@[simp] theorem buf (h : Word str) : str.buf = str.chars := cString_of_ne_zero h.ne_zero

theorem nameChars (h : Word str) : nameChars (padName str.chars) = str.chars :=
  nameChars_padName h.le h.ne_zero

theorem tidy (h : Word str) : TidyName (padName str.chars) fun _ => 0 where
  padded := padded_padName h.le h.ne_zero
  nonempty := by
    change str.chars.getD 0 0 ≠ 0
    rw [List.getD_eq_getElem _ _ h.pos]
    exact h.ne_zero _ (List.getElem_mem _)
  ext := rfl

theorem accepted {src dest : StringN} (hsrc : Word src) (hdest : Word dest) :
    ¬(8 < src.len ∨ 8 < dest.len) ∧ ¬(src.len = 0 ∨ dest.len = 0) := by
  have hsrcPos := hsrc.pos
  have hdestPos := hdest.pos
  have hsrcLe := hsrc.le
  have hdestLe := hdest.le
  omega

end Word

/-- The first live slot, the two link slots with them, that has the word for its name. -/
def entryAt (t : DirectoryTable) (str : StringN) : Option (Fin 64) :=
  lookup t (namedRequest (padName str.chars) 0 0)

section Names
variable {s : Storage} {p : Cell} {i : Fin 64} {str : StringN}

theorem mem_slots : i ∈ slots ↔ 2 ≤ i := mem_drop_two

structure Names (str : StringN) (e : DirectoryEntry) : Prop where
  live : e.Live
  name : e.name = padName str.chars
  ext : e.ext = fun _ => 0

theorem entryAt_eq_some {t : DirectoryTable} (h : entryAt t str = some i) : Names str (t i) := by
  obtain ⟨hlive, hname, hext⟩ := lookup_eq_some h
  exact ⟨hlive, hname, hext⟩

theorem entryAt_eq_none {t : DirectoryTable} : entryAt t str = none ↔ ∀ i, ¬Names str (t i) := by
  rw [entryAt, lookup_eq_none]
  exact ⟨fun h i hn => h i hn.live ⟨hn.name, hn.ext⟩, fun h i hlive hm => h i ⟨hlive, hm.1, hm.2⟩⟩

theorem Names.entryName {e : DirectoryEntry} (h : Names str e) (hw : Word str) :
    entryName e = str.chars := by
  rw [entryName_eq (by rw [h.ext]), h.name, hw.nameChars]

namespace Image

/-- Comparing the characters of a slot with a word is comparing names. -/
theorem names_iff (h : Image s) (hp : s.volume.Existing p) (hi : 2 ≤ i) (hw : Word str) :
    entryName (s.volume.table p i) = str.chars ↔ Names str (s.volume.table p i) := by
  refine ⟨fun heq => ?_, fun hn => hn.entryName hw⟩
  by_cases hlive : (s.volume.table p i).Live
  · have htidy := h.tidy ⟨hp, hi, hlive⟩
    refine ⟨hlive, htidy.padded.inj hw.tidy.padded ?_, htidy.ext⟩
    rw [hw.nameChars, ← htidy.entryName, heq]
  · rw [h.wellFormed.free_zero hp i hlive] at heq
    have hempty : entryName .zero = [] := by decide
    have hpos := hw.pos
    rw [StringN.len, ← heq, hempty] at hpos
    exact absurd hpos (by decide)

/-- Behind the link slots a name is carried by no second slot of the table. -/
theorem names_unique (h : Image s) (hp : s.volume.Existing p) (hi : 2 ≤ i) {j : Fin 64}
    (hn : Names str (s.volume.table p i)) (hn' : Names str (s.volume.table p j)) : i = j :=
  h.wellFormed.names hp i j hi hn.live hn'.live (hn.name.trans hn'.name.symm)
    (hn.ext.trans hn'.ext.symm)

theorem word_of_live (h : Image s) (he : s.volume.LiveEntry p i) :
    Word ⟨entryName (s.volume.table p i)⟩ := by
  have htidy := h.tidy he
  rw [htidy.entryName]
  refine ⟨?_, nameChars_length _, fun _ => ne_zero_of_mem_cString⟩
  rw [StringN.len_mk, List.length_pos_iff]
  intro hnil
  refine htidy.nonempty ?_
  rw [← htidy.padded, copyName_eq, hnil]
  rfl

theorem names_of_live (h : Image s) (he : s.volume.LiveEntry p i) :
    Names ⟨entryName (s.volume.table p i)⟩ (s.volume.table p i) :=
  (h.names_iff he.existing he.slot (h.word_of_live he)).mp rfl

theorem entryAt_of_names (h : Image s) (hp : s.volume.Existing p) (hi : 2 ≤ i)
    (hn : Names str (s.volume.table p i)) : entryAt (s.volume.table p) str = some i :=
  lookup_unique hn.live ⟨hn.name, hn.ext⟩ fun _ hlive hm =>
    (h.names_unique hp hi hn ⟨hlive, hm.1, hm.2⟩).symm

/-- The search of the shell finds what the search of the kernel finds behind the link slots. -/
theorem findEntry_eq (h : Image s) (hp : s.volume.Existing p) (hw : Word str) :
    findEntry str.buf (s.volume.table p) =
      (entryAt (s.volume.table p) str).filter fun i => 2 ≤ i := by
  rw [hw.buf]
  cases hfind : findEntry str.chars (s.volume.table p) with
  | none =>
    have hnone := List.find?_eq_none.mp hfind
    symm
    rw [Option.filter_eq_none_iff]
    intro i hat hi
    have hi' := of_decide_eq_true hi
    exact hnone i (mem_slots.mpr hi') (strcmp_iff.mpr ((entryAt_eq_some hat).entryName hw))
  | some i =>
    have hi := mem_slots.mp (List.mem_of_find?_eq_some hfind)
    have hfound := List.find?_some hfind
    have hname := strcmp_iff.mp hfound
    rw [h.entryAt_of_names hp hi ((h.names_iff hp hi hw).mp hname)]
    exact (Option.filter_some_pos (p := fun i => decide (2 ≤ i)) (decide_eq_true hi)).symm

theorem findEntry_eq_some (h : Image s) (hp : s.volume.Existing p) (hw : Word str) :
    findEntry str.buf (s.volume.table p) = some i ↔ 2 ≤ i ∧ Names str (s.volume.table p i) := by
  rw [h.findEntry_eq hp hw, Option.filter_eq_some_iff]
  constructor
  · rintro ⟨hat, hi⟩
    exact ⟨of_decide_eq_true hi, entryAt_eq_some hat⟩
  · rintro ⟨hi, hn⟩
    exact ⟨h.entryAt_of_names hp hi hn, decide_eq_true hi⟩

/-- With no extensions around, `cd` looks for the name alone. -/
theorem cdSlot_eq (h : Image s) (hp : s.volume.Existing p) (hw : Word str) :
    cdSlot str (s.volume.table p) = findEntry str.buf (s.volume.table p) := by
  refine List.find?_congr fun i hi => ?_
  by_cases hname : entryName (s.volume.table p i) = str.chars
  · have hext := ((h.names_iff hp (mem_slots.mp hi) hw).mp hname).ext
    have hempty : entryExt (s.volume.table p i) = [] := by
      have hbytes : (List.ofFn (DirectoryEntry.layout (s.volume.table p i))).drop 8 =
          (s.volume.table p i).ext 0 ::
            (List.ofFn (DirectoryEntry.layout (s.volume.table p i))).drop 9 := rfl
      rw [entryExt, hbytes, hext, cString, List.takeWhile_cons_of_neg (by decide)]
    rw [strcmp_iff.mpr (hname.trans hw.buf.symm), strcmp_iff.mpr hempty]
    rfl
  · have hne : strcmp (entryName (s.volume.table p i)) str.buf = false := by
      rw [Bool.eq_false_iff]
      exact fun heq => hname ((strcmp_iff.mp heq).trans hw.buf)
    rw [hne, Bool.false_and]

end Image

end Names

end Os2024.Shell
