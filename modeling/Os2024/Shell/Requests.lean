import Os2024.Shell.CommandLine
import Os2024.Shell.Commands

/-! # Names in requests

Seven commands copy an argument byte by byte into the name of a request before they
hand the request to the kernel. Behind the name lie the extension, the parent
directory and the size of the buffer.
-/

namespace Os2024.Shell
open Library.PackedLayout Library.CallTrees FileSystem

/-- The fields in their order in the packed struct. -/
def requestFields : DriverRequest ≃ UInt32 × Bytes 8 × Bytes 3 × UInt32 × UInt32 where
  toFun r := (r.buf, r.name, r.ext, r.parentClusterNumber, r.bufferSize)
  invFun := fun (b, n, x, p, s) => ⟨b, n, x, p, s⟩
  left_inv _ := rfl
  right_inv _ := rfl

/-- `struct FAT32DriverRequest` in memory. -/
def requestLayout : Layout DriverRequest 23 :=
  requestFields.trans <| pair word <| pair (bytes 8) <| pair (bytes 3) <| pair word word

def nameOffset : ℕ := 4

/-- `for (uint8_t i = 0; i < arg.len; i++) request.name[i] = arg.buf[i];`, from `i` on. A store
behind the request ends the run. -/
def fillName (arg : StringN) : ℕ → UInt8 → Bytes 23 → Except Fault (Bytes 23)
  | 0, _, _ => .error .diverges
  | fuel + 1, i, request =>
    if i.toNat < arg.len then
      if h : nameOffset + i.toNat < 23 then
        fillName arg fuel (i + 1)
          (Function.update request ⟨nameOffset + i.toNat, h⟩ (arg.chars.getD i.toNat 0))
      else .error .outOfBounds
    else .ok request

inductive RequestCall where
  | read
  | readDirectory
  | write
  | delete
  | createProcess
  deriving DecidableEq

/-- A request is declared, an argument copied into its name, and the request passed on. -/
structure Fill where
  call : RequestCall
  declared : DriverRequest
  arg : StringN

/-- The kernel answers with a return code, and a read leaves the memory changed. -/
abbrev FillProg := Program (fun _ : Fill => Int8 × Memory) Fault Unit

def fill (call : RequestCall) (declared : DriverRequest) (arg : StringN) : FillProg :=
  .call ⟨call, declared, arg⟩ fun _ => .ret ()

namespace Fill

def cd (folder : StringN) (sh : Globals) : FillProg :=
  if strcmp folder.buf (ascii ".") ∨ strcmp folder.buf (ascii "..") then .ret ()
  else match cdSlot folder sh.currentDir with
  | some i =>
    if ¬(sh.currentDir i).IsFolder then .ret ()
    else fill .readDirectory (namedRequest (fun _ => 0) sh.currentDirCluster 2048) folder
  | none => .ret ()

def mkdir (folderName : StringN) (sh : Globals) : FillProg :=
  if 8 < folderName.len then .ret ()
  else fill .write (namedRequest (fun _ => 0) sh.currentDirCluster 0) folderName

def rm (folder : StringN) (sh : Globals) : FillProg :=
  if 8 < folder.len then .ret ()
  else fill .delete (namedRequest (fun _ => 0) sh.currentDirCluster 0) folder

/-- The length of the name is not looked at. -/
def cat (filename : StringN) (buf : UInt32) (sh : Globals) : FillProg :=
  fill .read ⟨buf, fun _ => 0, fun _ => 0, sh.currentDirCluster, 10 * clusterSize⟩ filename

/-- The second copy starts from the name that the first one has left; the parent is set behind it. -/
def cp (src dest : StringN) (srcBuf : UInt32) (sh : Globals) : FillProg :=
  if 8 < src.len ∨ 8 < dest.len then .ret ()
  else if src.len = 0 ∨ dest.len = 0 then .ret ()
  else
    let srcReq : DriverRequest :=
      ⟨srcBuf, fun _ => 0, fun _ => 0, sh.currentDirCluster, 15 * clusterSize⟩
    .call ⟨.read, srcReq, src⟩ fun (retcode, mem) =>
      if retcode = 1 ∨ retcode = 2 ∨ retcode = -1 then .ret ()
      else match countFilesize mem srcBuf countFuel 0 0 0 with
      | .error f => .fail f
      | .ok filesize => fill .write { srcReq with
          name := padName src.chars
          bufferSize := filesize * clusterSize
          parentClusterNumber := sh.cpDestCluster } dest

def mv (src dest : StringN) (sh : Globals) : FillProg :=
  if 8 < src.len ∨ 8 < dest.len then .ret ()
  else if src.len = 0 ∨ dest.len = 0 then .ret ()
  else .call ⟨.readDirectory, namedRequest (fun _ => 0) sh.currentDirCluster clusterSize, src⟩
    fun (retcodeSrc, _) =>
      if retcodeSrc = 2 then .ret ()
      else fill .readDirectory (namedRequest (fun _ => 0) sh.currentDirCluster clusterSize) dest

/-- Programs are looked for in the folder of cluster 5. -/
def exec (filename : StringN) : FillProg :=
  fill .createProcess (namedRequest (fun _ => 0) 5 0x100000) filename

/-- The branches of `shell_input_handler`; `buf` is the address of a buffer on the stack. -/
def handler (a : Arguments) (buf : UInt32) (sh : Globals) : FillProg :=
  match a.command with
  | .cd => cd a.arg1 sh
  | .mkdir => mkdir a.arg1 sh
  | .cat => cat a.arg1 buf sh
  | .cp => cp a.arg1 a.arg2 buf { sh with cpDestCluster := sh.currentDirCluster }
  | .rm => rm a.arg1 sh
  | .mv => mv a.arg1 a.arg2 sh
  | .exec => exec a.arg1
  | _ => .ret ()

/-- What a command line makes the shell pass on. -/
def shellInputHandler (input : StringN) (buf : UInt32) (sh : Globals) : FillProg :=
  match readArguments input with
  | .error f => .fail f
  | .ok a => handler a buf sh

/-- The copying ends and has changed nothing but the name, and the extension is empty. -/
structure Contained (f : Fill) : Prop where
  filled : ∃ name, fillName f.arg 256 0 (requestLayout f.declared) =
    .ok (requestLayout { f.declared with name := name })
  ext : f.declared.ext = fun _ => 0

/-- No longer argument gets into a request. -/
def Short (f : Fill) : Prop := f.arg.len ≤ 8

end Fill

section Loop
variable {arg : StringN} {r : DriverRequest}

theorem requestLayout_name {k : Fin 23} (hk : nameOffset ≤ k.val) (hk' : k.val - nameOffset < 8)
    (r : DriverRequest) : requestLayout r k = r.name ⟨k.val - nameOffset, hk'⟩ := by
  fin_cases k <;> first | rfl | simp [nameOffset] at hk hk'

theorem requestLayout_frame {k : Fin 23} (hk : k.val < nameOffset ∨ nameOffset + 8 ≤ k)
    (r : DriverRequest) (name : Bytes 8) :
    requestLayout { r with name := name } k = requestLayout r k := by
  fin_cases k <;> first | rfl | simp [nameOffset] at hk

/-- Where the loop ends, it has copied what it was to copy. -/
theorem fillName_spec {fuel : ℕ} {i : UInt8} {request request' : Bytes 23} (hi : i.toNat < 23)
    (h : fillName arg fuel i request = .ok request') (k : Fin 23) :
    request' k = if nameOffset + i.toNat ≤ k ∧ k < nameOffset + arg.len then
      arg.chars.getD (k - nameOffset) 0 else request k := by
  induction fuel generalizing i request with
  | zero => cases h
  | succ fuel ih =>
    rw [fillName] at h
    split_ifs at h with hlen hin
    · have hsucc : (i + 1).toNat = i.toNat + 1 := by
        rw [UInt8.toNat_add]
        exact Nat.mod_eq_of_lt (by simp [nameOffset] at hin ⊢; omega)
      rw [ih (by simp [nameOffset] at hin; omega) h, hsucc]
      by_cases hk : k.val = nameOffset + i.toNat
      · have hfin : k = ⟨nameOffset + i.toNat, hin⟩ := Fin.ext hk
        rw [if_neg (by omega), hfin, Function.update_self, if_pos ⟨le_rfl, by dsimp only; omega⟩,
          Nat.add_sub_cancel_left]
      · have hfin : k ≠ ⟨nameOffset + i.toNat, hin⟩ := fun heq => hk (congrArg Fin.val heq)
        rw [Function.update_of_ne hfin]
        congr 1
        apply propext
        omega
    · obtain rfl := Except.ok.inj h
      rw [if_neg (by omega)]

theorem fillName_short {fuel : ℕ} {i : UInt8} {request : Bytes 23} (hi : i.toNat ≤ arg.len)
    (hlen : arg.len ≤ 19) (hfuel : arg.len < i.toNat + fuel) :
    ∃ request', fillName arg fuel i request = .ok request' := by
  induction fuel generalizing i request with
  | zero => omega
  | succ fuel ih =>
    rw [fillName]
    split_ifs with hlt hin
    · have hsucc : (i + 1).toNat = i.toNat + 1 := by
        rw [UInt8.toNat_add]
        exact Nat.mod_eq_of_lt (by simp; omega)
      exact ih (by omega) (by omega)
    · exact absurd (by rw [nameOffset]; omega) hin
    · exact ⟨request, rfl⟩

/-- Up to eight characters go into the name and nowhere else. -/
theorem fillName_contained (hlen : arg.len ≤ 8) (r : DriverRequest) :
    fillName arg 256 0 (requestLayout r) = .ok (requestLayout { r with
      name := fun k => if k < arg.len then arg.chars.getD k 0 else r.name k }) := by
  obtain ⟨request', hok⟩ := @fillName_short arg 256 0 (requestLayout r) (Nat.zero_le _)
    (hlen.trans (by decide)) (by simp; omega)
  rw [hok]
  congr 1
  funext k
  rw [fillName_spec (by decide) hok, UInt8.toNat_zero, Nat.add_zero]
  by_cases hk : k.val < nameOffset ∨ nameOffset + 8 ≤ k.val
  · rw [if_neg (by omega)]
    exact (requestLayout_frame hk r _).symm
  · have hk8 : k.val - nameOffset < 8 := by omega
    rw [requestLayout_name (by omega) hk8, requestLayout_name (by omega) hk8]
    dsimp only
    by_cases hlt : k.val < nameOffset + arg.len
    · rw [if_pos ⟨by omega, hlt⟩, if_pos (by omega)]
    · rw [if_neg (fun h => hlt h.2), if_neg (by omega)]

/-- The request that the models of the commands pass on. -/
theorem fillName_padName (hlen : arg.len ≤ 8) (parentClusterNumber bufferSize : UInt32) :
    fillName arg 256 0 (requestLayout (namedRequest (fun _ => 0) parentClusterNumber bufferSize)) =
      .ok (requestLayout (namedRequest (padName arg.chars) parentClusterNumber bufferSize)) := by
  rw [fillName_contained hlen]
  congr 2
  simp only [namedRequest, DriverRequest.mk.injEq, true_and, and_true]
  funext k
  rw [padName]
  split_ifs with hk
  · rfl
  · exact (List.getD_eq_default _ _ (not_lt.mp hk)).symm

/-- A ninth character that is not NUL ends up behind the name. -/
theorem fillName_spills (hlen : 8 < arg.len) (hchars : ∀ c ∈ arg.chars, c ≠ 0)
    (hext : r.ext = fun _ => 0) (name : Bytes 8) :
    fillName arg 256 0 (requestLayout r) ≠ .ok (requestLayout { r with name := name }) := by
  intro hok
  have hbyte := fillName_spec (by decide) hok ⟨12, by decide⟩
  rw [requestLayout_frame (by decide) r, if_pos ⟨by decide, by
    change 12 < 4 + arg.len
    omega⟩] at hbyte
  have hext0 : requestLayout r ⟨12, by decide⟩ = r.ext 0 := rfl
  have hninth : arg.chars.getD 8 0 = arg.chars[8] := List.getD_eq_getElem _ _ hlen
  rw [hext0, hext] at hbyte
  exact hchars _ (List.getElem_mem hlen) (hninth.symm.trans hbyte.symm)

end Loop

namespace Fill

/-- Only the name of the request is filled, and from an argument of at most eight characters. -/
def Safe (f : Fill) : Prop := f.Contained ∧ f.Short

theorem safe_of_short {f : Fill} (hshort : f.Short) (hext : f.declared.ext = fun _ => 0) : f.Safe :=
  ⟨⟨⟨_, fillName_contained hshort f.declared⟩, hext⟩, hshort⟩

section Commands
variable {sh : Globals} {buf : UInt32}

/-- Without a check the command is as safe as its argument is short. -/
theorem fill_safe_iff {call : RequestCall} {declared : DriverRequest} {arg : StringN}
    (hext : declared.ext = fun _ => 0) : (fill call declared arg).Uses Safe ↔ arg.len ≤ 8 := by
  constructor
  · intro h
    exact h.1.2
  · intro hlen
    exact ⟨safe_of_short hlen hext, fun _ => trivial⟩

/-- A slot that `cd` finds has a short name, as its extension is empty. -/
theorem cdSlot_short {folder : StringN} {table : DirectoryTable} {i : Fin 64}
    (hchars : ∀ c ∈ folder.chars, c ≠ 0) (h : cdSlot folder table = some i) : folder.len ≤ 8 := by
  have hfound := List.find?_some h
  rw [Bool.and_eq_true, strcmp_iff, strcmp_iff] at hfound
  obtain ⟨hname, hext⟩ := hfound
  have hext0 : (table i).ext 0 = 0 := by
    have hbytes : (List.ofFn (DirectoryEntry.layout (table i))).drop 8 =
        (table i).ext 0 :: (List.ofFn (DirectoryEntry.layout (table i))).drop 9 := rfl
    rw [entryExt, hbytes, cString] at hext
    by_contra hne
    rw [List.takeWhile_cons_of_pos (by simpa using hne)] at hext
    cases hext
  rw [entryName_eq hext0, StringN.buf, cString_of_ne_zero hchars] at hname
  rw [StringN.len, ← hname]
  exact nameChars_length _

theorem cd_safe {folder : StringN} (hchars : ∀ c ∈ folder.chars, c ≠ 0) : (cd folder sh).Uses Safe := by
  rw [cd]
  split_ifs
  · trivial
  · cases hslot : cdSlot folder sh.currentDir with
    | none => trivial
    | some i =>
      dsimp only
      rw [ite_not]
      split_ifs
      · exact (fill_safe_iff (by rfl)).mpr (cdSlot_short hchars hslot)
      · trivial

theorem mkdir_safe (folderName : StringN) : (mkdir folderName sh).Uses Safe := by
  rw [mkdir]
  split_ifs with hlong
  · trivial
  · exact (fill_safe_iff rfl).mpr (not_lt.mp hlong)

theorem rm_safe (folder : StringN) : (rm folder sh).Uses Safe := by
  rw [rm]
  split_ifs with hlong
  · trivial
  · exact (fill_safe_iff rfl).mpr (not_lt.mp hlong)

theorem cat_safe_iff (filename : StringN) : (cat filename buf sh).Uses Safe ↔ filename.len ≤ 8 :=
  fill_safe_iff rfl

theorem exec_safe_iff (filename : StringN) : (exec filename).Uses Safe ↔ filename.len ≤ 8 :=
  fill_safe_iff rfl

theorem cp_safe (src dest : StringN) : (cp src dest buf sh).Uses Safe := by
  rw [cp]
  split_ifs with hlong hempty
  · trivial
  · trivial
  · rw [not_or, not_lt, not_lt] at hlong
    refine ⟨safe_of_short hlong.1 rfl, ?_⟩
    rintro ⟨retcode, mem⟩
    dsimp only
    split_ifs
    · trivial
    · cases countFilesize mem buf countFuel 0 0 0 with
      | error f => trivial
      | ok filesize => exact (fill_safe_iff rfl).mpr hlong.2

theorem mv_safe (src dest : StringN) : (mv src dest sh).Uses Safe := by
  rw [mv]
  split_ifs with hlong hempty
  · trivial
  · trivial
  · rw [not_or, not_lt, not_lt] at hlong
    refine ⟨safe_of_short hlong.1 rfl, ?_⟩
    rintro ⟨retcode, mem⟩
    dsimp only
    split_ifs
    · trivial
    · exact (fill_safe_iff rfl).mpr hlong.2

/-- `cat` and `exec` are the commands that look at no length. -/
theorem handler_safe_iff {a : Arguments} (hchars : ∀ c ∈ a.arg1.chars, c ≠ 0) :
    (handler a buf sh).Uses Safe ↔
      (a.command = .cat ∨ a.command = .exec → a.arg1.len ≤ 8) := by
  rw [handler]
  cases a.command with
  | cat => simp [cat_safe_iff]
  | exec => simp [exec_safe_iff]
  | cd => simp [cd_safe hchars]
  | mkdir => simp [mkdir_safe]
  | rm => simp [rm_safe]
  | cp => simp [cp_safe]
  | mv => simp [mv_safe]
  | _ => simp [Program.Uses]

/-- For every command line the requests are safe exactly when `cat` and `exec` get a short name. -/
theorem requests_safe_iff (line : CommandLine) (buf : UInt32) (sh : Globals) :
    (shellInputHandler line.input buf sh).Uses Safe ↔
      ∀ a, readArguments line.input = .ok a → a.command = .cat ∨ a.command = .exec →
        a.arg1.len ≤ 8 := by
  obtain ⟨a, hargs, hwords⟩ := readArguments_ok line
  have hchars := (hwords a.arg1 (by simp)).2
  rw [shellInputHandler, hargs]
  dsimp only
  rw [handler_safe_iff hchars]
  simp

end Commands

/-- `cat abcdefghijkl` -/
def catLine : CommandLine where
  input := ⟨ascii "cat abcdefghijkl"⟩
  len_le := Nat.le_of_ble_eq_true rfl
  ne_zero := ne_zero_of_all rfl

/-- The extension becomes `ijk`, and the parent ends in an `l`. -/
theorem cat_spills : ¬(shellInputHandler catLine.input 0
    ⟨fun _ => .zero, .create, 2, fun _ => .zero, .create, 2, 2⟩).Uses Contained := by
  rintro ⟨⟨⟨name, hfilled⟩, -⟩, -⟩
  exact fillName_spills (by decide) (ne_zero_of_all rfl) rfl name hfilled

end Fill

end Os2024.Shell
