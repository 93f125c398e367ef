import Os2024.Shell.Path

/-! # The commands of user-shell.c

Every command takes the globals of the shell and returns them changed. The current
directory is a copy of a table on the disk, read again at the end of a command that
may have changed it.
-/

namespace Os2024.Shell
open Library.PackedLayout Library.CallTrees FileSystem

/-- A request without extension. The address of the buffer is left 0 where the answer comes back
as a value. -/
def namedRequest (name : Bytes 8) (parentClusterNumber bufferSize : UInt32) : DriverRequest :=
  ⟨0, name, fun _ => 0, parentClusterNumber, bufferSize⟩

/-- The slots behind the two link slots. -/
def slots : List (Fin 64) := (List.finRange 64).drop 2

/-- A table read by `read_directory`; no code looks at one that was not stored. -/
def tableOf : Option Cluster → DirectoryTable
  | some cluster => tableLayout.symm cluster
  | none => fun _ => .zero

/-- Update current directory table. -/
def refresh (sh : Globals) : Prog Globals := do
  let table ← readTable sh.currentDirCluster
  return { sh with currentDir := table }

def printIf (print : Bool) (p : Prog Unit) : Prog Unit := if print then p else pure ()

/-- Print success message. -/
def printDone (text : String) (name : List UInt8) : Prog Unit := do
  puts (ascii text) biosLightGreen
  puts name biosYellow
  puts (ascii "!") biosLightGreen

def printChanged (sh : Globals) : Prog Unit :=
  printDone "Current directory successfully changed to " (entryName (sh.currentDir 0))

/-- `cd ..` -/
def cdParent (fuel : ℕ) (sh : Globals) : Prog Globals := do
  let table ← readTable (sh.currentDir 1).cluster
  createPath fuel (setCurrentCluster { sh with currentDir := table })

/-- Read new directory to currentDir. -/
def cdEnter (fuel : ℕ) (folder : StringN) (sh : Globals) : Prog Globals := do
  let (_, answer) ← readDirectoryCall (namedRequest (padName folder.chars) sh.currentDirCluster 2048)
  let sh := match answer with
    | some cluster => { sh with currentDir := tableLayout.symm cluster }
    | none => sh
  createPath fuel (setCurrentCluster sh)

/-- The slot that `cd` takes the name for. -/
def cdSlot (folder : StringN) (table : DirectoryTable) : Option (Fin 64) :=
  slots.find? fun i => strcmp (entryName (table i)) folder.buf && strcmp (entryExt (table i)) []

def cdFolder (fuel : ℕ) (folder : StringN) (print : Bool) (sh : Globals) : Prog Globals :=
  match cdSlot folder sh.currentDir with
  | some i =>
    if ¬(sh.currentDir i).IsFolder then do
      puts (ascii "cd error: Not a directory!") biosLightRed
      return sh
    else do
      let sh ← cdEnter fuel folder sh
      printIf print (printChanged sh)
      return sh
  | none => do
    printIf print (puts (ascii "cd error: Directory not found!") biosLightRed)
    return sh

def cd (fuel : ℕ) (folder : StringN) (print : Bool) (sh : Globals) : Prog Globals :=
  if strcmp folder.buf (ascii "..") then do
    let sh ← cdParent fuel sh
    printIf print (printChanged sh)
    return sh
  else if strcmp folder.buf (ascii ".") then do
    printIf print (printChanged sh)
    return sh
  else cdFolder fuel folder print sh

def printMkdir (folderName : StringN) (retcode : Int8) : Prog Unit :=
  if retcode = 0 then
    putsEach 0xE [ascii "Operation success! ", ascii "'", folderName.buf, ascii "'",
      ascii " has been created."]
  else if retcode = 1 then
    putsEach 0xC [ascii "mkdir: cannot create directory ", ascii "'", folderName.buf, ascii "'",
      ascii ": File exists"]
  else pure ()

/-- A folder is written without a buffer. -/
def makeFolder (folderName : StringN) (sh : Globals) : Prog Unit :=
  if 8 < folderName.len then
    puts (ascii "Directory name is too long! Maximum name length is 8 characters.") 0xC
  else do
    let retcode ← writeCall (namedRequest (padName folderName.chars) sh.currentDirCluster 0) fun _ => 0
    printMkdir folderName retcode

def mkdir (folderName : StringN) (sh : Globals) : Prog Globals := do
  makeFolder folderName sh
  refresh sh

def printRm (folder : StringN) (retcode : Int8) : Prog Unit :=
  if retcode = 0 then
    putsEach 0xE [ascii "Operation success! ", ascii "'", folder.buf, ascii "'",
      ascii " has been removed."]
  else if retcode = 1 then
    putsEach 0xC [ascii "rm: cannot remove '", folder.buf, ascii "': No such file or directory"]
  else if retcode = 2 then
    putsEach 0xC [ascii "rm: cannot remove '", folder.buf, ascii "': Directory is not empty"]
  else pure ()

def removeEntry (folder : StringN) (sh : Globals) : Prog Unit :=
  if 8 < folder.len then
    puts (ascii "rm: cannot remove: Name is too long! Maximum name length is 8 characters.") 0xC
  else do
    let retcode ← deleteCall (namedRequest (padName folder.chars) sh.currentDirCluster 0)
    printRm folder retcode

def rm (folder : StringN) (sh : Globals) : Prog Globals := do
  removeEntry folder sh
  refresh sh

/-- Where the memory of a user program ends. -/
def userMemoryEnd : UInt32 := 0xC0000000

/-- Count filesize: one byte of every cluster is looked at, also behind the buffer. -/
def countFilesize (mem : Memory) (srcBuf : UInt32) :
    ℕ → (filesize i blankCount : UInt32) → Except Fault UInt32
  | 0, _, _, _ => .error .diverges
  | fuel + 1, filesize, i, blankCount =>
    if userMemoryEnd ≤ srcBuf + i then .error .pageFault
    else if mem (srcBuf + i) ≠ 0 then
      countFilesize mem srcBuf fuel (filesize + 1) ((filesize + 1) * clusterSize + 1) blankCount
    else if blankCount = 10 then .ok filesize
    else countFilesize mem srcBuf fuel filesize i (blankCount + 1)

/-- No user program has more clusters of memory than this. -/
def countFuel : ℕ := 2 ^ 21

/-- The name of the copy: `dest` written over the name of the source. -/
def overlayName (dest src : StringN) : Bytes 8 :=
  fun i => if i.val < dest.len then dest.chars.getD i 0 else src.chars.getD i 0

/-- `stack` is the memory in which `src_buf`, at an address of the stack, is not initialised. -/
def cp (src dest : StringN) (stack : Memory) (srcBuf : UInt32) (sh : Globals) : Prog Globals :=
  if 8 < src.len ∨ 8 < dest.len then do
    puts (ascii "cp: cannot copy: Name is too long! Maximum name length is 8 characters.") biosLightRed
    return sh
  else if src.len = 0 ∨ dest.len = 0 then do
    puts (ascii "cp error: Not enough arguments! Usage: cp <source> <destination>") biosLightRed
    return sh
  else do
    let srcReq : DriverRequest :=
      ⟨srcBuf, padName src.chars, fun _ => 0, sh.currentDirCluster, 15 * clusterSize⟩
    let (retcode, mem) ← readCall srcReq stack
    if retcode = 1 then do
      puts (ascii "cp error: Source is not a file!") biosLightRed
      return sh
    else if retcode = 2 then do
      puts (ascii "cp error: Source file is not a found in current directory!") biosLightRed
      return sh
    else if retcode = -1 then do
      -- Its length is taken from a variable that is not initialised here.
      puts (ascii "cp error: Source file is too large!") biosLightRed
      return sh
    else do
      let filesize ← .ofExcept (countFilesize mem srcBuf countFuel 0 0 0)
      let srcReq := { srcReq with
        bufferSize := filesize * clusterSize
        name := overlayName dest src
        parentClusterNumber := sh.cpDestCluster }
      let retcode ← writeCall srcReq mem
      if retcode = 1 then do
        puts (ascii "cp error: File with the same name already exists in current directory!")
          biosLightRed
        return sh
      else do
        let sh ← refresh sh
        if sh.cpDestCluster ≠ sh.currentDirCluster then return sh
        else do
          printDone "cp: File successfully copied to " dest.chars
          return sh

def findEntry (name : List UInt8) (table : DirectoryTable) : Option (Fin 64) :=
  slots.find? fun i => strcmp (entryName (table i)) name

def renameEntry (entry : DirectoryEntry) (dest : StringN) : DirectoryEntry :=
  { entry with name := padName dest.chars }

/-- `srcTable` is the table of the source when it is a folder. -/
def mvRename (src dest : StringN) (srcTable : Option DirectoryTable) (sh : Globals) :
    Prog Globals :=
  match findEntry src.buf sh.currentDir with
  | none => return sh
  | some i => do
    let sh := { sh with
      currentDir := Function.update sh.currentDir i (renameEntry (sh.currentDir i) dest) }
    writeTable sh.currentDir sh.currentDirCluster
    match srcTable with
    | none => pure ()
    | some srcTable =>
      writeTable (Function.update srcTable 0 (renameEntry (srcTable 0) dest)) (srcTable 0).cluster
    printDone "mv: File/folder successfully renamed to " dest.chars
    refresh sh

/-- The entry that is moved and the current directory without it. When the search finds nothing,
the last entry it looked at stands for the source. -/
def takeEntry (name : List UInt8) (table : DirectoryTable) : DirectoryEntry × DirectoryTable :=
  match findEntry name table with
  | some i => (table i, Function.update table i .zero)
  | none => (table 63, table)

/-- Copy source to destination, if there is a place. -/
def putEntry (entry : DirectoryEntry) (table : DirectoryTable) : DirectoryTable :=
  match slots.find? fun i => ¬(table i).Live with
  | some k => Function.update table k entry
  | none => table

/-- The table of a folder with another parent. -/
def reparent (table : DirectoryTable) (parent : DirectoryEntry) : DirectoryTable :=
  Function.update table 1
    { table 1 with clusterHigh := parent.clusterHigh, clusterLow := parent.clusterLow }

def mvMove (src dest : StringN) (srcTable : Option DirectoryTable) (destTable : DirectoryTable)
    (sh : Globals) : Prog Globals := do
  let (srcEntry, table) := takeEntry src.buf sh.currentDir
  let sh := { sh with currentDir := table }
  writeTable sh.currentDir sh.currentDirCluster
  let destTable := putEntry srcEntry destTable
  writeTable destTable (destTable 0).cluster
  match srcTable with
  | none => pure ()
  | some srcTable => writeTable (reparent srcTable (destTable 0)) (srcTable 0).cluster
  printDone "mv: File/folder successfully moved to " dest.chars
  refresh sh

/-- Check dest is file or folder. -/
def mvTo (src dest : StringN) (srcTable : Option DirectoryTable) (sh : Globals) :
    Prog Globals := do
  let (retcodeDest, destAnswer) ←
    readDirectoryCall (namedRequest (padName dest.chars) sh.currentDirCluster clusterSize)
  if retcodeDest = 1 then do
    puts (ascii "mv error: Destination is not a folder!") biosLightRed
    return sh
  else if retcodeDest = 2 then mvRename src dest srcTable sh
  else mvMove src dest srcTable (tableOf destAnswer) sh

def mv (src dest : StringN) (sh : Globals) : Prog Globals :=
  if 8 < src.len ∨ 8 < dest.len then do
    puts (ascii "mv: cannot move: Name is too long! Maximum name length is 8 characters.") biosLightRed
    return sh
  else if src.len = 0 ∨ dest.len = 0 then do
    puts (ascii "mv error: Not enough arguments! Usage: mv <source> <destination>") biosLightRed
    return sh
  else do
    let (retcodeSrc, srcAnswer) ←
      readDirectoryCall (namedRequest (padName src.chars) sh.currentDirCluster clusterSize)
    if retcodeSrc = 2 then do
      puts (ascii "mv error: Source file/folder not found in current directory!") biosLightRed
      return sh
    else mvTo src dest (if retcodeSrc = 0 then some (tableOf srcAnswer) else none) sh

def printFound (sh : Globals) (entry : DirectoryEntry) : Prog Unit := do
  puts (ascii "File/folder found at ") biosLightGreen
  let path ← .ofExcept (StringN.create.appendstr sh.currentDirPath.buf)
  let path ← .ofExcept (path.appendstr (entryName entry))
  puts path.chars biosYellow
  puts (ascii "!") 0x7

/-- The loop of `find_recursive`: the globals and `found` behind it, and whether the call has
returned from inside. -/
def findLoop (fuel : ℕ) (filename : StringN) (recurse : Globals → Bool → Prog (Globals × Bool)) :
    List (Fin 64) → Globals → Bool → Prog (Globals × Bool × Bool)
  | [], sh, found => return (sh, found, false)
  | i :: rest, sh, found =>
    let entry := sh.currentDir i
    if ¬entry.Live then findLoop fuel filename recurse rest sh found
    else if strcmp (entryName entry) filename.buf then do
      printIf (!found) (printFound sh entry)
      return (sh, true, true)
    else if entry.IsFolder then do
      let folderName ← .ofExcept (StringN.create.appendstr (entryName entry))
      let sh ← cd fuel folderName false sh
      let (sh, found) ← recurse sh found
      findLoop fuel filename recurse rest sh found
    else findLoop fuel filename recurse rest sh found

/-- `fuel` bounds the length of the paths, and the number behind it the depth of the recursion. -/
def findRecursive (fuel : ℕ) (filename : StringN) : ℕ → Globals → Bool → Prog (Globals × Bool)
  | 0, _, _ => .fail .diverges
  | depth + 1, sh, found =>
    if found then return (sh, found)
    else do
      let (sh, found, returned) ←
        findLoop fuel filename (findRecursive fuel filename depth) slots sh found
      if returned then return (sh, found)
      else do
        let root ← .ofExcept (StringN.create.appendstr (ascii ".."))
        let sh ← cd fuel root false sh
        return (sh, found)

def find (fuel : ℕ) (filename : StringN) (sh : Globals) : Prog Globals := do
  let (sh', found) ← findRecursive fuel filename fuel
    { sh with
      currentDir := sh.rootDir
      currentDirPath := sh.rootDirPath
      currentDirCluster := sh.rootDirCluster } false
  let sh := { sh' with
    currentDir := sh.currentDir
    currentDirPath := sh.currentDirPath
    currentDirCluster := sh.currentDirCluster }
  printIf (!found) (puts (ascii "find: File/folder not found in filesystem!") biosLightRed)
  return sh

/-- Load root directory. -/
def loadRoot (fuel : ℕ) (sh : Globals) : Prog Globals := do
  let (_, answer) ← readDirectoryCall (namedRequest rootName rootClusterNumber 2048)
  let sh := match answer with
    | some cluster => { sh with currentDir := tableLayout.symm cluster }
    | none => sh
  let sh ← createPath fuel (setCurrentCluster sh)
  return { sh with
    rootDir := sh.currentDir
    rootDirPath := sh.currentDirPath
    rootDirCluster := sh.currentDirCluster }

def printPrompt (sh : Globals) : Prog Unit := do
  puts (ascii "Macrosoft@OS-2024 [") 0xA
  let prompt ← .ofExcept (StringN.create.appendstr sh.currentDirPath.buf)
  puts prompt.buf 0x9
  puts (ascii "] >> ") 0xA

def shellPrintPrompt (fuel : ℕ) (sh : Globals) : Prog Globals := do
  let sh ← createPath fuel sh
  printPrompt sh
  return sh

/-- The commands that the directory tree depends on, and the prompt. -/
inductive Command where
  | cd (folder : StringN)
  | mkdir (folderName : StringN)
  | rm (folder : StringN)
  | cp (src dest : StringN) (stack : Memory) (srcBuf : UInt32)
  | mv (src dest : StringN)
  | find (filename : StringN)
  | prompt

/-- The branches of `shell_input_handler`. -/
def Command.exec (fuel : ℕ) (sh : Globals) : Command → Prog Globals
  | cd folder => Shell.cd fuel folder true sh
  | mkdir folderName => Shell.mkdir folderName sh
  | rm folder => Shell.rm folder sh
  | cp src dest stack srcBuf =>
    Shell.cp src dest stack srcBuf { sh with cpDestCluster := sh.currentDirCluster }
  | mv src dest => Shell.mv src dest sh
  | find filename => Shell.find fuel filename sh
  | prompt => shellPrintPrompt fuel sh

end Os2024.Shell
