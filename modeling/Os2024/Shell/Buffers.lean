import Os2024.Library.WatchedCalls
import Os2024.Shell.Commands

/-! # Watching the buffers

The same commands under a watch that stops them as soon as a string would have 256
characters: then no place is left for the NUL behind it. Only the commands that
build strings are written out again; what they do otherwise is not touched.
-/

namespace Os2024.Shell
open Library.CallTrees Library.CallTrees.Program FileSystem

abbrev WatchedProg (α : Type) := Program Syscall.Answer (Option Fault) α

namespace Watched

/-- `stringn_appendchar`, as long as the character goes to one of the places 0 to 254. -/
def appendchar (str : StringN) (c : UInt8) : Except (Option Fault) StringN :=
  if str.len < 255 then .ok ⟨str.chars ++ [c]⟩ else .error none

def appendstr (str : StringN) : List UInt8 → Except (Option Fault) StringN
  | [] => .ok str
  | c :: buf =>
    match appendchar str c with
    | .error f => .error f
    | .ok str => appendstr str buf

def createPathRecursive : ℕ → UInt32 → WatchedProg StringN
  | 0, _ => .fail (some .diverges)
  | fuel + 1, cluster =>
    if cluster = rootClusterNumber then .ofExcept (appendstr .create (ascii "./"))
    else do
      let dirTable ← (readTable cluster).watch
      let currdir ← .ofExcept (appendstr .create (entryName (dirTable 0)))
      let currdir ← .ofExcept (appendchar currdir '/'.toUInt8)
      let parentPath ← createPathRecursive fuel (dirTable 1).cluster
      .ofExcept (appendstr parentPath currdir.buf)

def createPath (fuel : ℕ) (sh : Globals) : WatchedProg Globals := do
  let path ← createPathRecursive fuel (sh.currentDir 0).cluster
  return { sh with currentDirPath := path }

def cdParent (fuel : ℕ) (sh : Globals) : WatchedProg Globals := do
  let table ← (readTable (sh.currentDir 1).cluster).watch
  createPath fuel (setCurrentCluster { sh with currentDir := table })

def cdEnter (fuel : ℕ) (folder : StringN) (sh : Globals) : WatchedProg Globals := do
  let (_, answer) ← (readDirectoryCall
    (namedRequest (padName folder.chars) sh.currentDirCluster 2048)).watch
  let sh := match answer with
    | some cluster => { sh with currentDir := tableLayout.symm cluster }
    | none => sh
  createPath fuel (setCurrentCluster sh)

def cdFolder (fuel : ℕ) (folder : StringN) (print : Bool) (sh : Globals) : WatchedProg Globals :=
  match cdSlot folder sh.currentDir with
  | some i =>
    if ¬(sh.currentDir i).IsFolder then do
      (puts (ascii "cd error: Not a directory!") biosLightRed).watch
      return sh
    else do
      let sh ← cdEnter fuel folder sh
      (printIf print (printChanged sh)).watch
      return sh
  | none => do
    (printIf print (puts (ascii "cd error: Directory not found!") biosLightRed)).watch
    return sh

def cd (fuel : ℕ) (folder : StringN) (print : Bool) (sh : Globals) : WatchedProg Globals :=
  if strcmp folder.buf (ascii "..") then do
    let sh ← cdParent fuel sh
    (printIf print (printChanged sh)).watch
    return sh
  else if strcmp folder.buf (ascii ".") then do
    (printIf print (printChanged sh)).watch
    return sh
  else cdFolder fuel folder print sh

def printFound (sh : Globals) (entry : DirectoryEntry) : WatchedProg Unit := do
  (puts (ascii "File/folder found at ") biosLightGreen).watch
  let path ← .ofExcept (appendstr .create sh.currentDirPath.buf)
  let path ← .ofExcept (appendstr path (entryName entry))
  (puts path.chars biosYellow).watch
  (puts (ascii "!") 0x7).watch

def findLoop (fuel : ℕ) (filename : StringN)
    (recurse : Globals → Bool → WatchedProg (Globals × Bool)) :
    List (Fin 64) → Globals → Bool → WatchedProg (Globals × Bool × Bool)
  | [], sh, found => return (sh, found, false)
  | i :: rest, sh, found =>
    let entry := sh.currentDir i
    if ¬entry.Live then findLoop fuel filename recurse rest sh found
    else if strcmp (entryName entry) filename.buf then do
      if !found then printFound sh entry else pure ()
      return (sh, true, true)
    else if entry.IsFolder then do
      let folderName ← .ofExcept (appendstr .create (entryName entry))
      let sh ← cd fuel folderName false sh
      let (sh, found) ← recurse sh found
      findLoop fuel filename recurse rest sh found
    else findLoop fuel filename recurse rest sh found

def findRecursive (fuel : ℕ) (filename : StringN) :
    ℕ → Globals → Bool → WatchedProg (Globals × Bool)
  | 0, _, _ => .fail (some .diverges)
  | depth + 1, sh, found =>
    if found then return (sh, found)
    else do
      let (sh, found, returned) ←
        findLoop fuel filename (findRecursive fuel filename depth) slots sh found
      if returned then return (sh, found)
      else do
        let root ← .ofExcept (appendstr .create (ascii ".."))
        let sh ← cd fuel root false sh
        return (sh, found)

def find (fuel : ℕ) (filename : StringN) (sh : Globals) : WatchedProg Globals := do
  let (sh', found) ← findRecursive fuel filename fuel
    { sh with
      currentDir := sh.rootDir
      currentDirPath := sh.rootDirPath
      currentDirCluster := sh.rootDirCluster } false
  let sh := { sh' with
    currentDir := sh.currentDir
    currentDirPath := sh.currentDirPath
    currentDirCluster := sh.currentDirCluster }
  (printIf (!found) (puts (ascii "find: File/folder not found in filesystem!") biosLightRed)).watch
  return sh

def printPrompt (sh : Globals) : WatchedProg Unit := do
  (puts (ascii "Macrosoft@OS-2024 [") 0xA).watch
  let prompt ← .ofExcept (appendstr .create sh.currentDirPath.buf)
  (puts prompt.buf 0x9).watch
  (puts (ascii "] >> ") 0xA).watch

def shellPrintPrompt (fuel : ℕ) (sh : Globals) : WatchedProg Globals := do
  let sh ← createPath fuel sh
  printPrompt sh
  return sh

/-- The commands that build no strings need no watch. -/
def exec (fuel : ℕ) (sh : Globals) : Command → WatchedProg Globals
  | .cd folder => cd fuel folder true sh
  | .find filename => find fuel filename sh
  | .prompt => shellPrintPrompt fuel sh
  | cmd => (cmd.exec fuel sh).watch

end Watched

section Watches

/-- A command under watch stops or does what the command does. -/
abbrev Follows {α : Type} (p : WatchedProg α) (q : Prog α) : Prop := Watches Syscall.exec p q

theorem watched_appendchar (str : StringN) (c : UInt8) : Watched.appendchar str c = .error none ∨
    Watched.appendchar str c = (str.appendchar c).mapError some := by
  rw [Watched.appendchar, StringN.appendchar]
  split_ifs
  · exact .inr rfl
  · omega
  · exact .inl rfl
  · exact .inl rfl

theorem watched_appendstr (str : StringN) (buf : List UInt8) :
    Watched.appendstr str buf = .error none ∨
      Watched.appendstr str buf = (str.appendstr buf).mapError some := by
  induction buf generalizing str with
  | nil => exact .inr rfl
  | cons c buf ih =>
    rw [Watched.appendstr, StringN.appendstr]
    rcases watched_appendchar str c with h | h
    · rw [h]
      exact .inl rfl
    · rw [h]
      cases str.appendchar c with
      | error f => exact .inr rfl
      | ok str => exact ih str

theorem createPathRecursive_follows (fuel : ℕ) (cluster : UInt32) :
    Follows (Watched.createPathRecursive fuel cluster) (createPathRecursive fuel cluster) := by
  induction fuel generalizing cluster with
  | zero => exact .fail _
  | succ fuel ih =>
    apply Watches.ite
    · exact .ofExcept (watched_appendstr _ _)
    · apply Watches.bind (.watch _)
      intro dirTable
      apply Watches.bind (.ofExcept (watched_appendstr _ _))
      intro currdir
      apply Watches.bind (.ofExcept (watched_appendchar _ _))
      intro currdir
      apply Watches.bind (ih _)
      intro parentPath
      exact .ofExcept (watched_appendstr _ _)

theorem createPath_follows (fuel : ℕ) (sh : Globals) :
    Follows (Watched.createPath fuel sh) (createPath fuel sh) :=
  .bind (createPathRecursive_follows fuel _) fun _ => .pure _

theorem cd_follows (fuel : ℕ) (folder : StringN) (print : Bool) (sh : Globals) :
    Follows (Watched.cd fuel folder print sh) (cd fuel folder print sh) := by
  apply Watches.ite
  · apply Watches.bind (.bind (.watch _) fun table => createPath_follows fuel _)
    intro sh
    exact .bind (.watch _) fun _ => .pure _
  · apply Watches.ite
    · exact .bind (.watch _) fun _ => .pure _
    · rw [Watched.cdFolder, cdFolder]
      cases cdSlot folder sh.currentDir with
      | none => exact .bind (.watch _) fun _ => .pure _
      | some i =>
        apply Watches.ite
        · exact .bind (.watch _) fun _ => .pure _
        · apply Watches.bind (.bind (.watch _) fun answer => createPath_follows fuel _)
          intro sh
          exact .bind (.watch _) fun _ => .pure _

theorem printFound_follows (sh : Globals) (entry : DirectoryEntry) :
    Follows (Watched.printFound sh entry) (printFound sh entry) := by
  apply Watches.bind (.watch _)
  intro _
  apply Watches.bind (.ofExcept (watched_appendstr _ _))
  intro path
  apply Watches.bind (.ofExcept (watched_appendstr _ _))
  intro path
  exact .bind (.watch _) fun _ => .watch _

theorem findLoop_follows {fuel : ℕ} {filename : StringN}
    {recurse : Globals → Bool → WatchedProg (Globals × Bool)}
    {recurse' : Globals → Bool → Prog (Globals × Bool)}
    (hrec : ∀ sh found, Follows (recurse sh found) (recurse' sh found)) (l : List (Fin 64))
    (sh : Globals) (found : Bool) : Follows (Watched.findLoop fuel filename recurse l sh found)
      (findLoop fuel filename recurse' l sh found) := by
  induction l generalizing sh found with
  | nil => exact .pure _
  | cons i rest ih =>
    apply Watches.ite
    · exact ih sh found
    apply Watches.ite
    · cases found with
      | false => exact .bind (printFound_follows sh _) fun _ => .pure _
      | true => exact .pure _
    apply Watches.ite
    · apply Watches.bind (.ofExcept (watched_appendstr _ _))
      intro folderName
      apply Watches.bind (cd_follows fuel folderName false sh)
      intro sh
      apply Watches.bind (hrec sh found)
      rintro ⟨sh, found⟩
      exact ih sh found
    · exact ih sh found

theorem findRecursive_follows (fuel : ℕ) (filename : StringN) (depth : ℕ) (sh : Globals)
    (found : Bool) : Follows (Watched.findRecursive fuel filename depth sh found)
      (findRecursive fuel filename depth sh found) := by
  induction depth generalizing sh found with
  | zero => exact .fail _
  | succ depth ih =>
    apply Watches.ite
    · exact .pure _
    · apply Watches.bind (findLoop_follows ih slots sh found)
      rintro ⟨sh, found, returned⟩
      apply Watches.ite
      · exact .pure _
      · apply Watches.bind (.ofExcept (watched_appendstr _ _))
        intro root
        exact .bind (cd_follows fuel root false sh) fun _ => .pure _

theorem exec_follows (fuel : ℕ) (sh : Globals) (cmd : Command) :
    Follows (Watched.exec fuel sh cmd) (cmd.exec fuel sh) := by
  cases cmd with
  | cd folder => exact cd_follows fuel folder true sh
  | find filename =>
    apply Watches.bind (findRecursive_follows fuel filename fuel _ _)
    rintro ⟨sh', found⟩
    exact .bind (.watch _) fun _ => .pure _
  | prompt =>
    apply Watches.bind (createPath_follows fuel sh)
    intro sh
    apply Watches.bind
    · apply Watches.bind (.watch _)
      intro _
      apply Watches.bind (.ofExcept (watched_appendstr _ _))
      intro prompt
      exact .bind (.watch _) fun _ => .watch _
    · exact fun _ => .pure _
  | _ => exact .watch _

end Watches

end Os2024.Shell
