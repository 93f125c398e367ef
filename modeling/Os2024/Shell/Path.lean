import Mathlib.Data.List.GetD
import Mathlib.Data.List.TakeWhile
import Os2024.Shell.System

/-! # Strings and paths of the shell

A `StringN` holds up to 256 characters. A path is rebuilt from the bottom: every
directory gives its own name and the cluster of its parent, until the root is
reached.
-/

namespace Os2024.Shell
open Library.PackedLayout Library.CallTrees FileSystem

/-- A C string: the characters up to the first NUL. -/
def cString (bytes : List UInt8) : List UInt8 := bytes.takeWhile (· ≠ 0)

/-- `strcmp` of utils.h, which says whether two strings are equal. -/
def strcmp (str1 str2 : List UInt8) : Bool := str1.length = str2.length ∧ str1 = str2

/-- The `len` characters of a `struct StringN`; the rest of its buffer is zero. -/
structure StringN where
  chars : List UInt8

namespace StringN

def create : StringN := ⟨[]⟩

def len (str : StringN) : ℕ := str.chars.length

@[simp] theorem len_mk (chars : List UInt8) : len ⟨chars⟩ = chars.length := rfl

/-- Beyond its 256 characters a buffer runs into the length. -/
def appendchar (str : StringN) (c : UInt8) : Except Fault StringN :=
  if str.len < 256 then .ok ⟨str.chars ++ [c]⟩ else .error .outOfBounds

def appendstr (str : StringN) : List UInt8 → Except Fault StringN
  | [] => .ok str
  | c :: buf =>
    match str.appendchar c with
    | .error f => .error f
    | .ok str => str.appendstr buf

def buf (str : StringN) : List UInt8 := cString str.chars

end StringN

/-- The name of an entry as a C string, which runs on into the fields behind it. -/
def entryName (entry : DirectoryEntry) : List UInt8 :=
  cString (List.ofFn (DirectoryEntry.layout entry))

def entryExt (entry : DirectoryEntry) : List UInt8 :=
  cString ((List.ofFn (DirectoryEntry.layout entry)).drop 8)

/-- The global variables of the shell. -/
structure Globals where
  rootDir : DirectoryTable
  rootDirPath : StringN
  rootDirCluster : UInt32
  currentDir : DirectoryTable
  currentDirPath : StringN
  currentDirCluster : UInt32
  cpDestCluster : UInt32

/-- The recursion has no bound of its own; `fuel` is a number of calls. -/
def createPathRecursive : ℕ → UInt32 → Prog StringN
  | 0, _ => .fail .diverges
  | fuel + 1, cluster =>
    if cluster = rootClusterNumber then .ofExcept (StringN.create.appendstr (ascii "./"))
    else do
      let dirTable ← readTable cluster
      let currdir ← .ofExcept (StringN.create.appendstr (entryName (dirTable 0)))
      let currdir ← .ofExcept (currdir.appendchar '/'.toUInt8)
      let parentPath ← createPathRecursive fuel (dirTable 1).cluster
      .ofExcept (parentPath.appendstr currdir.buf)

def createPath (fuel : ℕ) (sh : Globals) : Prog Globals := do
  let path ← createPathRecursive fuel (sh.currentDir 0).cluster
  return { sh with currentDirPath := path }

def setCurrentCluster (sh : Globals) : Globals :=
  { sh with currentDirCluster := (sh.currentDir 0).cluster }

theorem ne_zero_of_all {l : List UInt8} (h : l.all (· ≠ 0) = true) : ∀ c ∈ l, c ≠ 0 := by
  simpa using h

theorem cString_of_ne_zero {l : List UInt8} (h : ∀ c ∈ l, c ≠ 0) : cString l = l := by
  rw [cString, List.takeWhile_eq_self_iff]
  simpa using h

theorem ne_zero_of_mem_cString {l : List UInt8} {c : UInt8} (h : c ∈ cString l) : c ≠ 0 := by
  simpa using List.mem_takeWhile_imp h

theorem strcmp_iff {str1 str2 : List UInt8} : strcmp str1 str2 = true ↔ str1 = str2 := by
  rw [strcmp, decide_eq_true_iff]
  exact ⟨And.right, fun h => ⟨congrArg List.length h, h⟩⟩

namespace StringN

theorem appendstr_ok {str : StringN} {buf : List UInt8} (h : str.len + buf.length ≤ 256) :
    str.appendstr buf = .ok ⟨str.chars ++ buf⟩ := by
  induction buf generalizing str with
  | nil => rw [appendstr, List.append_nil]
  | cons c buf ih =>
    rw [List.length_cons] at h
    rw [appendstr, appendchar, if_pos (by omega)]
    dsimp only
    rw [ih (by rw [len, List.length_append, List.length_singleton, ← len]; omega),
      List.append_assoc, List.singleton_append]

theorem appendstr_error {str : StringN} {buf : List UInt8} (hstr : str.len ≤ 256)
    (h : 256 < str.len + buf.length) : str.appendstr buf = .error .outOfBounds := by
  induction buf generalizing str with
  | nil =>
    rw [List.length_nil] at h
    omega
  | cons c buf ih =>
    rw [List.length_cons] at h
    rw [appendstr, appendchar]
    by_cases hlt : str.len < 256
    · have hlen : len ⟨str.chars ++ [c]⟩ = str.len + 1 := by
        rw [len, List.length_append, List.length_singleton, ← len]
      rw [if_pos hlt]
      exact ih (by omega) (by omega)
    · rw [if_neg hlt]

end StringN

def nameChars (name : Bytes 8) : List UInt8 := cString (List.ofFn name)

/-- The name field that a string of up to eight characters fills. -/
def padName (chars : List UInt8) : Bytes 8 := fun i => chars.getD i 0

theorem nameChars_length (name : Bytes 8) : (nameChars name).length ≤ 8 := by
  have h := (List.takeWhile_prefix (· ≠ 0) (l := List.ofFn name)).length_le
  rwa [List.length_ofFn] at h

theorem ofFn_padName {chars : List UInt8} (h : chars.length ≤ 8) :
    List.ofFn (padName chars) = chars ++ List.replicate (8 - chars.length) 0 := by
  apply List.ext_getElem
  · rw [List.length_ofFn, List.length_append, List.length_replicate]
    omega
  · intro i hi hi'
    rw [List.getElem_ofFn, padName, List.getElem_append]
    split_ifs with hlt
    · exact List.getD_eq_getElem _ _ hlt
    · rw [List.getElem_replicate]
      exact List.getD_eq_default _ _ (not_lt.mp hlt)

theorem nameChars_padName {chars : List UInt8} (h : chars.length ≤ 8) (h0 : ∀ c ∈ chars, c ≠ 0) :
    nameChars (padName chars) = chars := by
  rw [nameChars, ofFn_padName h, cString, List.takeWhile_append_of_pos (by simpa using h0)]
  cases hn : 8 - chars.length with
  | zero => exact List.append_nil _
  | succ n =>
    rw [List.replicate_succ, List.takeWhile_cons_of_neg (by decide), List.append_nil]

theorem copyName_eq (name : Bytes 8) : copyName name = padName (nameChars name) := rfl

@[simp] theorem nameChars_copyName (name : Bytes 8) : nameChars (copyName name) = nameChars name :=
  nameChars_padName (nameChars_length name) fun _ => ne_zero_of_mem_cString

/-- A name of at most eight characters, filled up with NULs. -/
def Padded (name : Bytes 8) : Prop := copyName name = name

theorem padded_padName {chars : List UInt8} (h : chars.length ≤ 8) (h0 : ∀ c ∈ chars, c ≠ 0) :
    Padded (padName chars) := by
  rw [Padded, copyName_eq, nameChars_padName h h0]

/-- Padded names are told apart by their characters. -/
theorem Padded.inj {name name' : Bytes 8} (h : Padded name) (h' : Padded name')
    (hchars : nameChars name = nameChars name') : name = name' := by
  rw [← h, ← h', copyName_eq, copyName_eq, hchars]

/-- With an empty extension a name ends where its field ends. -/
theorem entryName_eq {entry : DirectoryEntry} (h : entry.ext 0 = 0) :
    entryName entry = nameChars entry.name := by
  have hbytes : List.ofFn (DirectoryEntry.layout entry) =
      List.ofFn entry.name ++ 0 :: (List.ofFn (DirectoryEntry.layout entry)).drop 9 := by
    rw [← h]
    rfl
  rw [entryName, hbytes, cString, List.takeWhile_append]
  split_ifs with hfull
  · rw [List.takeWhile_cons_of_neg (by decide), List.append_nil, nameChars, cString]
    exact ((List.takeWhile_prefix _).eq_of_length hfull).symm
  · rfl

end Os2024.Shell
