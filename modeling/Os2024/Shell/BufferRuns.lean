import Os2024.Shell.Buffers
import Os2024.Shell.Image

/-! # Paths that fit their buffers

Slot 1 leads from a directory up to the root, over names that make up its path. As
long as the paths a command builds have no more than 255 characters, the watch over
its buffers lets it pass, whatever else is on the disk.
-/

namespace Os2024.Shell
open Library.CallTrees Library.CallTrees.Program FileSystem

/-- Slot 1 leads from the directory in `cluster` to the root; slot 0 gives the names on the way. -/
inductive Ascends (s : Storage) : UInt32 → List (List UInt8) → Prop
  | root : Ascends s rootClusterNumber []
  | up {cluster : UInt32} {names : List (List UInt8)} (h : cluster ≠ rootClusterNumber)
      (hup : Ascends s (s.directoryTable cluster 1).cluster names) :
      Ascends s cluster (names ++ [entryName (s.directoryTable cluster 0)])

def PathFits (s : Storage) (table : DirectoryTable) : Prop :=
  ∀ names, Ascends s (table 0).cluster names → (pathChars names).length ≤ 255

/-- The table from which `cd` goes on to build a path. -/
def cdTable (s : Storage) (sh : Globals) (folder : StringN) : Option DirectoryTable :=
  if strcmp folder.buf (ascii "..") then some (s.directoryTable (sh.currentDir 1).cluster)
  else if strcmp folder.buf (ascii ".") then none
  else match cdSlot folder sh.currentDir with
  | none => none
  | some i =>
    if ¬(sh.currentDir i).IsFolder then none
    else match (readDirectory (namedRequest (padName folder.chars) sh.currentDirCluster 2048) s).2 with
    | some cluster => some (tableLayout.symm cluster)
    | none => some sh.currentDir

def Globals.goTo (sh : Globals) (table : DirectoryTable) (names : List (List UInt8)) : Globals :=
  { sh with
    currentDir := table
    currentDirPath := ⟨pathChars names⟩
    currentDirCluster := (table 0).cluster }

/-- The folders that a search enters from its current directory, and the way back. -/
def Searched (sh : Globals) (folder : StringN) : Prop :=
  folder = ⟨ascii ".."⟩ ∨ ∃ i ∈ slots, (sh.currentDir i).Live ∧ (sh.currentDir i).IsFolder ∧
    folder = ⟨entryName (sh.currentDir i)⟩

inductive Arrives (s : Storage) (sh₀ : Globals) : Globals → Prop
  | root : Arrives s sh₀ { sh₀ with
      currentDir := sh₀.rootDir
      currentDirPath := sh₀.rootDirPath
      currentDirCluster := sh₀.rootDirCluster }
  | move {sh : Globals} {folder : StringN} {table : DirectoryTable} {names : List (List UInt8)}
      (h : Arrives s sh₀ sh) (hfolder : Searched sh folder) (htable : cdTable s sh folder = some table)
      (hnames : Ascends s (table 0).cluster names) : Arrives s sh₀ (sh.goTo table names)

/-- Where the search comes to, the path fits a buffer, also with the name searched for. -/
def SearchFits (s : Storage) (sh₀ : Globals) (filename : StringN) : Prop :=
  ∀ sh, Arrives s sh₀ sh → sh.currentDirPath.len ≤ 255 ∧
    ∀ i ∈ slots, (sh.currentDir i).Live → strcmp (entryName (sh.currentDir i)) filename.buf →
      sh.currentDirPath.len + (entryName (sh.currentDir i)).length ≤ 255

def Command.Fits (s : Storage) (sh : Globals) : Command → Prop
  | .cd folder => ∀ table, cdTable s sh folder = some table → PathFits s table
  | .find filename => SearchFits s sh filename
  | .prompt => PathFits s sh.currentDir
  | _ => True

section Append
variable {str : StringN} {buf : List UInt8}

theorem watched_appendstr_ok (h : str.len + buf.length ≤ 255) :
    Watched.appendstr str buf = .ok ⟨str.chars ++ buf⟩ := by
  induction buf generalizing str with
  | nil => rw [Watched.appendstr, List.append_nil]
  | cons c buf ih =>
    rw [List.length_cons] at h
    rw [Watched.appendstr, Watched.appendchar, if_pos (by omega)]
    dsimp only
    rw [ih (by rw [StringN.len_mk, List.length_append, List.length_singleton, ← StringN.len]; omega),
      List.append_assoc, List.singleton_append]

theorem cString_length_le (l : List UInt8) : (cString l).length ≤ l.length :=
  (List.takeWhile_prefix _).length_le

/-- The name of an entry does not run out of the entry. -/
theorem entryName_length_le (e : DirectoryEntry) : (entryName e).length ≤ 32 := by
  have h := cString_length_le (List.ofFn (DirectoryEntry.layout e))
  rwa [List.length_ofFn] at h

theorem length_le_pathChars_concat (names : List (List UInt8)) (name : List UInt8) :
    (pathChars names).length + (name.length + 1) = (pathChars (names ++ [name])).length := by
  rw [pathChars_concat, List.length_append, List.length_append]
  rfl

end Append

section Paths
variable {s : System} {sh : Globals}

abbrev PassesWatch {α : Type} (p : WatchedProg α) (Q : α → System → Prop) (s : System) : Prop :=
  Passes Syscall.exec p Q s

theorem passes_print {p : Prog Unit} (hp : p.Uses Syscall.Quiet) :
    PassesWatch p.watch (fun _ s' => s'.storage = s.storage) s :=
  .watch fun _ _ h => storage_of_quiet hp h

theorem readTable_passes (cluster : UInt32) : PassesWatch (readTable cluster).watch
    (fun table s' => table = s.storage.directoryTable cluster ∧ s' = s) s := by
  apply Passes.watch
  intro table s' h
  obtain ⟨rfl, rfl⟩ := Prod.mk.inj (Except.ok.inj h)
  exact ⟨rfl, rfl⟩

theorem readDirectoryCall_passes (request : DriverRequest) :
    PassesWatch (readDirectoryCall request).watch
      (fun x s' => x = readDirectory request s.storage ∧ s' = s) s := by
  apply Passes.watch
  intro x s' h
  obtain ⟨rfl, rfl⟩ := Prod.mk.inj (Except.ok.inj h)
  exact ⟨rfl, rfl⟩

theorem createPathRecursive_passes (fuel : ℕ) {cluster : UInt32}
    (hfit : ∀ names, Ascends s.storage cluster names → (pathChars names).length ≤ 255) :
    PassesWatch (Watched.createPathRecursive fuel cluster) (fun path s' => s' = s ∧
      ∃ names, Ascends s.storage cluster names ∧ path = ⟨pathChars names⟩) s := by
  induction fuel generalizing cluster with
  | zero => exact .fail _
  | succ fuel ih =>
    rw [Watched.createPathRecursive]
    split_ifs with hroot
    · subst hroot
      exact .pure ⟨rfl, [], .root, rfl⟩
    · let name := entryName (s.storage.directoryTable cluster 0)
      have hname : name.length ≤ 32 := entryName_length_le _
      have hname0 : ∀ c ∈ name, c ≠ 0 := fun c hc => ne_zero_of_mem_cString hc
      apply Passes.bind (readTable_passes cluster)
      rintro dirTable s' ⟨rfl, rfl⟩
      -- the name and the slash behind it
      have hown : Watched.appendstr .create name = .ok ⟨name⟩ :=
        watched_appendstr_ok (by rw [StringN.create, StringN.len_mk, List.length_nil]; omega)
      have hslash : Watched.appendchar ⟨name⟩ '/'.toUInt8 = .ok ⟨name ++ ascii "/"⟩ :=
        if_pos (by rw [StringN.len_mk]; omega)
      have hbuf : StringN.buf ⟨name ++ ascii "/"⟩ = name ++ ascii "/" := by
        apply cString_of_ne_zero
        intro c hc
        rcases List.mem_append.mp hc with hc | hc
        · exact hname0 c hc
        · exact ne_zero_of_all (by decide) c hc
      change PassesWatch (.ofExcept (Watched.appendstr .create name) >>= _) _ s'
      rw [hown]
      change PassesWatch (.ofExcept (Watched.appendchar ⟨name⟩ '/'.toUInt8) >>= _) _ s'
      rw [hslash]
      have hparent := @ih (s'.storage.directoryTable cluster 1).cluster fun names hnames => by
        have hlen := hfit _ (.up hroot hnames)
        rw [← length_le_pathChars_concat] at hlen
        omega
      apply Passes.bind hparent
      rintro path s'' ⟨rfl, names, hnames, rfl⟩
      have hlen := hfit _ (.up hroot hnames)
      rw [← length_le_pathChars_concat] at hlen
      rw [hbuf, watched_appendstr_ok (by
        rw [StringN.len_mk, List.length_append]
        exact hlen)]
      exact .pure ⟨rfl, _, .up hroot hnames, by rw [pathChars_concat]⟩

theorem createPath_passes (fuel : ℕ) (hfit : PathFits s.storage sh.currentDir) :
    PassesWatch (Watched.createPath fuel sh) (fun sh' s' => s' = s ∧
      ∃ names, Ascends s.storage (sh.currentDir 0).cluster names ∧
        sh' = { sh with currentDirPath := ⟨pathChars names⟩ }) s := by
  apply Passes.bind (createPathRecursive_passes fuel hfit)
  rintro path s' ⟨rfl, names, hnames, rfl⟩
  exact .pure ⟨rfl, names, hnames, rfl⟩

theorem arrive_passes (fuel : ℕ) {table : DirectoryTable} (hfit : PathFits s.storage table) :
    PassesWatch (Watched.createPath fuel (setCurrentCluster { sh with currentDir := table }))
      (fun sh' s' => s'.storage = s.storage ∧ ∃ names, Ascends s.storage (table 0).cluster names ∧
        sh' = sh.goTo table names) s := by
  apply (@createPath_passes s (setCurrentCluster { sh with currentDir := table }) fuel hfit).mono
  rintro sh' s' ⟨rfl, names, hnames, rfl⟩
  exact ⟨rfl, names, hnames, rfl⟩

def WentTo (s : Storage) (sh : Globals) (folder : StringN) (sh' : Globals) : Prop :=
  sh' = sh ∨ ∃ table names, cdTable s sh folder = some table ∧
    Ascends s (table 0).cluster names ∧ sh' = sh.goTo table names

theorem cdFolder_passes (fuel : ℕ) {folder : StringN} (print : Bool)
    (hplain : ¬strcmp folder.buf (ascii "..")) (hself : ¬strcmp folder.buf (ascii "."))
    (hfit : ∀ table, cdTable s.storage sh folder = some table → PathFits s.storage table) :
    PassesWatch (Watched.cdFolder fuel folder print sh)
      (fun sh' s' => s'.storage = s.storage ∧ WentTo s.storage sh folder sh') s := by
  have hstay : ∀ {p : Prog Unit}, p.Uses Syscall.Quiet →
      PassesWatch (p.watch >>= fun _ => pure sh)
        (fun sh' s' => s'.storage = s.storage ∧ WentTo s.storage sh folder sh') s := by
    intro p hp
    apply Passes.bind (passes_print hp)
    exact fun _ s' hs' => .pure ⟨hs', .inl rfl⟩
  have htable : ∀ i, cdSlot folder sh.currentDir = some i → (sh.currentDir i).IsFolder →
      cdTable s.storage sh folder = some ((match (readDirectory (namedRequest
        (padName folder.chars) sh.currentDirCluster 2048) s.storage).2 with
        | some cluster => { sh with currentDir := tableLayout.symm cluster }
        | none => sh).currentDir) := by
    intro i hslot hfolder
    rw [cdTable, if_neg hplain, if_neg hself, hslot]
    dsimp only
    rw [if_neg (not_not_intro hfolder)]
    cases (readDirectory (namedRequest (padName folder.chars) sh.currentDirCluster 2048)
      s.storage).2 <;> rfl
  rw [Watched.cdFolder]
  cases hslot : cdSlot folder sh.currentDir with
  | none => exact hstay (printIf_quiet (puts_quiet _ _))
  | some i =>
    dsimp only
    rw [ite_not]
    split_ifs with hfolder
    · have hgo := htable i hslot hfolder
      have henter : PassesWatch (Watched.cdEnter fuel folder sh)
          (fun sh' s' => s'.storage = s.storage ∧ WentTo s.storage sh folder sh') s := by
        apply Passes.bind (readDirectoryCall_passes _)
        rintro ⟨retcode, answer⟩ s' ⟨hanswer, rfl⟩
        rw [← hanswer] at hgo
        dsimp only at hgo ⊢
        cases answer with
        | none =>
          apply (@arrive_passes s' sh fuel sh.currentDir (hfit _ hgo)).mono
          rintro sh' s'' ⟨hs', names, hnames, rfl⟩
          exact ⟨hs', .inr ⟨_, names, hgo, hnames, rfl⟩⟩
        | some cluster =>
          apply (@arrive_passes s' sh fuel (tableLayout.symm cluster) (hfit _ hgo)).mono
          rintro sh' s'' ⟨hs', names, hnames, rfl⟩
          exact ⟨hs', .inr ⟨_, names, hgo, hnames, rfl⟩⟩
      apply Passes.bind henter
      rintro sh' s' ⟨hs', hwent⟩
      apply Passes.bind (passes_print (printIf_quiet (printDone_quiet _ _)))
      exact fun _ s'' hs'' => .pure ⟨hs''.trans hs', hwent⟩
    · exact hstay (puts_quiet _ _)

theorem cd_passes (fuel : ℕ) {folder : StringN} (print : Bool)
    (hfit : ∀ table, cdTable s.storage sh folder = some table → PathFits s.storage table) :
    PassesWatch (Watched.cd fuel folder print sh)
      (fun sh' s' => s'.storage = s.storage ∧ WentTo s.storage sh folder sh') s := by
  rw [Watched.cd]
  split_ifs with hparent hself
  · have hgo : cdTable s.storage sh folder =
        some (s.storage.directoryTable (sh.currentDir 1).cluster) := if_pos hparent
    have hup : PassesWatch (Watched.cdParent fuel sh)
        (fun sh' s' => s'.storage = s.storage ∧ WentTo s.storage sh folder sh') s := by
      apply Passes.bind (readTable_passes _)
      rintro table s' ⟨rfl, rfl⟩
      apply (@arrive_passes s' sh fuel _ (hfit _ hgo)).mono
      rintro sh' s'' ⟨hs', names, hnames, rfl⟩
      exact ⟨hs', .inr ⟨_, names, hgo, hnames, rfl⟩⟩
    apply Passes.bind hup
    rintro sh' s' ⟨hs', hwent⟩
    apply Passes.bind (passes_print (printIf_quiet (printDone_quiet _ _)))
    exact fun _ s'' hs'' => .pure ⟨hs''.trans hs', hwent⟩
  · apply Passes.bind (passes_print (printIf_quiet (printDone_quiet _ _)))
    exact fun _ s' hs' => .pure ⟨hs', .inl rfl⟩
  · exact cdFolder_passes fuel print hparent hself hfit

end Paths

section Search
variable {s : System} {sh₀ sh : Globals} {filename : StringN}

theorem Arrives.wentTo (h : Arrives s.storage sh₀ sh) {folder : StringN} (hfolder : Searched sh folder)
    {sh' : Globals} (hwent : WentTo s.storage sh folder sh') : Arrives s.storage sh₀ sh' := by
  rcases hwent with rfl | ⟨table, names, htable, hnames, rfl⟩
  · exact h
  · exact .move h hfolder htable hnames

theorem SearchFits.pathFits (hfit : SearchFits s.storage sh₀ filename)
    (h : Arrives s.storage sh₀ sh) {folder : StringN} (hfolder : Searched sh folder) :
    ∀ table, cdTable s.storage sh folder = some table → PathFits s.storage table :=
  fun _ htable _ hnames => (hfit _ (.move h hfolder htable hnames)).1

theorem printFound_passes {entry : DirectoryEntry}
    (hfit : sh.currentDirPath.len + (entryName entry).length ≤ 255) :
    PassesWatch (Watched.printFound sh entry) (fun _ s' => s'.storage = s.storage) s := by
  have hbuf : sh.currentDirPath.buf.length ≤ sh.currentDirPath.len := cString_length_le _
  have hpath : Watched.appendstr .create sh.currentDirPath.buf = .ok ⟨sh.currentDirPath.buf⟩ :=
    watched_appendstr_ok (by rw [StringN.create, StringN.len_mk, List.length_nil]; omega)
  have hname : Watched.appendstr ⟨sh.currentDirPath.buf⟩ (entryName entry) =
      .ok ⟨sh.currentDirPath.buf ++ entryName entry⟩ :=
    watched_appendstr_ok (by rw [StringN.len_mk]; omega)
  apply Passes.bind (passes_print (puts_quiet _ _))
  intro _ s₁ hs₁
  rw [hpath]
  change PassesWatch (.ofExcept (Watched.appendstr ⟨sh.currentDirPath.buf⟩ (entryName entry)) >>= _)
    _ s₁
  rw [hname]
  apply Passes.bind (passes_print (puts_quiet _ _))
  intro _ s₂ hs₂
  apply (passes_print (puts_quiet _ _)).mono
  exact fun _ s₃ hs₃ => hs₃.trans (hs₂.trans hs₁)

theorem findLoop_passes {fuel : ℕ} {recurse : Globals → Bool → WatchedProg (Globals × Bool)}
    (hrec : ∀ sh found t, t.storage = s.storage → Arrives s.storage sh₀ sh →
      PassesWatch (recurse sh found)
        (fun x s' => s'.storage = s.storage ∧ Arrives s.storage sh₀ x.1) t)
    (hfit : SearchFits s.storage sh₀ filename) {l : List (Fin 64)} (hl : ∀ i ∈ l, i ∈ slots)
    (found : Bool) (h : Arrives s.storage sh₀ sh) {t : System} (ht : t.storage = s.storage) :
    PassesWatch (Watched.findLoop fuel filename recurse l sh found)
      (fun x s' => s'.storage = s.storage ∧ Arrives s.storage sh₀ x.1) t := by
  induction l generalizing sh found t with
  | nil => exact .pure ⟨ht, h⟩
  | cons i rest ih =>
    have hrest : ∀ j ∈ rest, j ∈ slots := fun j hj => hl j (List.mem_cons_of_mem i hj)
    have hi := hl i List.mem_cons_self
    rw [Watched.findLoop]
    dsimp only
    rw [ite_not]
    split_ifs with hlive hname hprint hfolder
    · -- the entry is found
      have hlen := (hfit sh h).2 i hi hlive hname
      apply Passes.bind (printFound_passes hlen)
      exact fun _ s' hs' => .pure ⟨hs'.trans ht, h⟩
    · exact .pure ⟨ht, h⟩
    · -- a folder is searched
      have hentry := entryName_length_le (sh.currentDir i)
      have hsearched : Searched sh ⟨entryName (sh.currentDir i)⟩ :=
        .inr ⟨i, hi, hlive, hfolder, rfl⟩
      rw [watched_appendstr_ok (by rw [StringN.create, StringN.len_mk, List.length_nil]; omega)]
      have hcd := @cd_passes t sh fuel ⟨entryName (sh.currentDir i)⟩ false
        (by rw [ht]; exact hfit.pathFits h hsearched)
      rw [ht] at hcd
      apply Passes.bind hcd
      rintro sh' t' ⟨ht', hwent⟩
      apply Passes.bind (hrec sh' found t' ht' (h.wentTo hsearched hwent))
      rintro ⟨sh'', found'⟩ t'' ⟨ht'', harrives⟩
      exact ih hrest found' harrives ht''
    · exact ih hrest found h ht
    · exact ih hrest found h ht

theorem findRecursive_passes (fuel : ℕ) (hfit : SearchFits s.storage sh₀ filename) (depth : ℕ)
    (found : Bool) (h : Arrives s.storage sh₀ sh) {t : System} (ht : t.storage = s.storage) :
    PassesWatch (Watched.findRecursive fuel filename depth sh found)
      (fun x s' => s'.storage = s.storage ∧ Arrives s.storage sh₀ x.1) t := by
  induction depth generalizing sh found t with
  | zero => exact .fail _
  | succ depth ih =>
    rw [Watched.findRecursive]
    split_ifs
    · exact .pure ⟨ht, h⟩
    · have hloop := @findLoop_passes s sh₀ sh filename fuel _
        (fun sh found t ht h => ih found h ht) hfit slots (fun _ hi => hi) found h t ht
      apply Passes.bind hloop
      rintro ⟨sh', found', returned⟩ t' ⟨ht', harrives⟩
      dsimp only at harrives ⊢
      split_ifs
      · exact .pure ⟨ht', harrives⟩
      · have hsearched : Searched sh' ⟨ascii ".."⟩ := .inl rfl
        have hcd := @cd_passes t' sh' fuel ⟨ascii ".."⟩ false
          (by rw [ht']; exact hfit.pathFits harrives hsearched)
        rw [ht'] at hcd
        change PassesWatch (Watched.cd fuel ⟨ascii ".."⟩ false sh' >>= _) _ t'
        apply Passes.bind hcd
        rintro sh'' t'' ⟨ht'', hwent⟩
        exact .pure ⟨ht'', harrives.wentTo hsearched hwent⟩

theorem Arrives.rootDirPath (h : Arrives s.storage sh₀ sh) : sh.rootDirPath = sh₀.rootDirPath := by
  induction h with
  | root => rfl
  | move _ _ _ _ ih => exact ih

end Search

structure SamePaths (sh sh' : Globals) : Prop where
  current : sh'.currentDirPath = sh.currentDirPath
  root : sh'.rootDirPath = sh.rootDirPath

section Commands
variable {s : System} {sh : Globals}

theorem SamePaths.refl (sh : Globals) : SamePaths sh sh := ⟨rfl, rfl⟩

theorem refresh_samePaths {sh' : Globals} (h : SamePaths sh sh') :
    (refresh sh').Returns (SamePaths sh) := .bind (.any _) fun _ _ => ⟨h.current, h.root⟩

theorem returns_pure {p : Prog Unit} {sh' : Globals} (h : SamePaths sh sh') :
    (p >>= fun _ => pure sh').Returns (SamePaths sh) := .bind (.any _) fun _ _ => h

theorem cp_samePaths (src dest : StringN) (stack : Memory) (srcBuf : UInt32) (sh : Globals) :
    (cp src dest stack srcBuf sh).Returns (SamePaths sh) := by
  have hself := SamePaths.refl sh
  rw [cp]
  split_ifs
  · exact returns_pure hself
  · exact returns_pure hself
  · apply Returns.bind (.any _)
    rintro ⟨retcode, mem⟩ -
    dsimp only
    split_ifs
    · exact returns_pure hself
    · exact returns_pure hself
    · exact returns_pure hself
    · apply Returns.bind (.any _)
      intro filesize _
      apply Returns.bind (.any _)
      intro retcode _
      split_ifs
      · exact returns_pure hself
      · apply Returns.bind (refresh_samePaths hself)
        intro sh' hsh'
        split_ifs
        · exact hsh'
        · exact returns_pure hsh'

theorem mv_samePaths (src dest : StringN) (sh : Globals) :
    (mv src dest sh).Returns (SamePaths sh) := by
  have hself := SamePaths.refl sh
  have hrename : ∀ srcTable, (mvRename src dest srcTable sh).Returns (SamePaths sh) := by
    intro srcTable
    rw [mvRename]
    cases findEntry src.buf sh.currentDir with
    | none => exact hself
    | some i =>
      apply Returns.bind (.any _)
      intro _ _
      cases srcTable with
      | none =>
        apply Returns.bind (.any _)
        intro _ _
        exact refresh_samePaths ⟨rfl, rfl⟩
      | some t =>
        apply Returns.bind (.any _)
        intro _ _
        apply Returns.bind (.any _)
        intro _ _
        exact refresh_samePaths ⟨rfl, rfl⟩
  have hmove : ∀ srcTable destTable, (mvMove src dest srcTable destTable sh).Returns (SamePaths sh) := by
    intro srcTable destTable
    apply Returns.bind (.any _)
    intro _ _
    apply Returns.bind (.any _)
    intro _ _
    cases srcTable with
    | none =>
      apply Returns.bind (.any _)
      intro _ _
      exact refresh_samePaths ⟨rfl, rfl⟩
    | some t =>
      apply Returns.bind (.any _)
      intro _ _
      apply Returns.bind (.any _)
      intro _ _
      exact refresh_samePaths ⟨rfl, rfl⟩
  have hto : ∀ srcTable, (mvTo src dest srcTable sh).Returns (SamePaths sh) := by
    intro srcTable
    apply Returns.bind (.any _)
    rintro ⟨retcodeDest, destAnswer⟩ -
    dsimp only
    split_ifs
    · exact returns_pure hself
    · exact hrename _
    · exact hmove _ _
  rw [mv]
  split_ifs
  · exact returns_pure hself
  · exact returns_pure hself
  · apply Returns.bind (.any _)
    rintro ⟨retcodeSrc, srcAnswer⟩ -
    dsimp only
    split_ifs
    · exact returns_pure hself
    · exact hto _
    · exact hto _

/-- A command whose paths fit passes the watch and leaves strings that fit. -/
theorem exec_passes (fuel : ℕ) {cmd : Command} (hfit : cmd.Fits s.storage sh)
    (hpath : sh.currentDirPath.len ≤ 255) : PassesWatch (Watched.exec fuel sh cmd)
      (fun sh' _ => sh'.currentDirPath.len ≤ 255 ∧ sh'.rootDirPath = sh.rootDirPath) s := by
  have hsame : ∀ sh', SamePaths sh sh' →
      sh'.currentDirPath.len ≤ 255 ∧ sh'.rootDirPath = sh.rootDirPath := by
    intro sh' h
    rw [h.current]
    exact ⟨hpath, h.root⟩
  cases cmd with
  | cd folder =>
    apply (cd_passes fuel true hfit).mono
    rintro sh' s' ⟨-, rfl | ⟨table, names, htable, hnames, rfl⟩⟩
    · exact ⟨hpath, rfl⟩
    · exact ⟨hfit table htable names hnames, rfl⟩
  | find filename =>
    apply Passes.bind (findRecursive_passes fuel hfit fuel false .root rfl)
    rintro ⟨sh', found⟩ s' ⟨-, harrives⟩
    apply Passes.bind (passes_print (printIf_quiet (puts_quiet _ _)))
    exact fun _ _ _ => .pure ⟨hpath, harrives.rootDirPath⟩
  | prompt =>
    apply Passes.bind (createPath_passes fuel hfit)
    rintro sh' s' ⟨rfl, names, hnames, rfl⟩
    have hlen := hfit names hnames
    have hbuf : (StringN.buf ⟨pathChars names⟩).length ≤ (pathChars names).length :=
      cString_length_le _
    have hprompt : Watched.appendstr .create (StringN.buf ⟨pathChars names⟩) =
        .ok ⟨StringN.buf ⟨pathChars names⟩⟩ :=
      watched_appendstr_ok (by rw [StringN.create, StringN.len_mk, List.length_nil]; omega)
    apply Passes.bind (Q := fun _ _ => True)
    · apply Passes.bind (passes_print (puts_quiet _ _))
      intro _ _ _
      dsimp only
      rw [hprompt]
      apply Passes.bind (passes_print (puts_quiet _ _))
      intro _ _ _
      exact (passes_print (puts_quiet _ _)).mono fun _ _ _ => trivial
    · exact fun _ _ _ => .pure ⟨hlen, rfl⟩
  | mkdir folderName =>
    exact .watch fun sh' _ h => hsame sh' (Returns.of_run (.bind (.any _) fun _ _ =>
      refresh_samePaths (.refl sh)) h)
  | rm folder =>
    exact .watch fun sh' _ h => hsame sh' (Returns.of_run (.bind (.any _) fun _ _ =>
      refresh_samePaths (.refl sh)) h)
  | cp src dest stack srcBuf =>
    apply Passes.watch
    intro sh' _ h
    have hcp := (cp_samePaths src dest stack srcBuf _).of_run h
    exact hsame sh' ⟨hcp.current, hcp.root⟩
  | mv src dest => exact .watch fun sh' _ h => hsame sh' ((mv_samePaths src dest sh).of_run h)

end Commands

end Os2024.Shell
