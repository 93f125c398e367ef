import Os2024.FileSystem.Outcomes
import Os2024.Shell.GuardedSessions

/-! # Copies

`cp` guesses the size of the file it has read: it looks at one byte of every cluster
and stops at a byte that is zero. The guess is the size of the copy. The name of the
source is left standing behind a shorter name of the copy.
-/

namespace Os2024.Shell
open Library.PackedLayout Library.CallTrees FileSystem FileSystem.Volume

/-- After `n` iterations the loop looks at byte `i` with these values of its variables. -/
inductive Scan (mem : Memory) (srcBuf : UInt32) : ℕ → (filesize i blankCount : UInt32) → Prop
  | start : Scan mem srcBuf 0 0 0 0
  | count {n : ℕ} {filesize i blankCount : UInt32} (h : Scan mem srcBuf n filesize i blankCount)
      (hmem : srcBuf + i < userMemoryEnd) (hbyte : mem (srcBuf + i) ≠ 0) :
      Scan mem srcBuf (n + 1) (filesize + 1) ((filesize + 1) * clusterSize + 1) blankCount
  | blank {n : ℕ} {filesize i blankCount : UInt32} (h : Scan mem srcBuf n filesize i blankCount)
      (hmem : srcBuf + i < userMemoryEnd) (hbyte : mem (srcBuf + i) = 0)
      (hblank : blankCount ≠ 10) :
      Scan mem srcBuf (n + 1) filesize i (blankCount + 1)

def ScanWithin (mem : Memory) (srcBuf : UInt32) (size : ℕ) : Prop :=
  ∀ n filesize i blankCount, Scan mem srcBuf n filesize i blankCount → i.toNat < size

def samplePos : ℕ → ℕ
  | 0 => 0
  | k + 1 => 2048 * (k + 1) + 1

/-- Of a buffer with these bytes, cluster `k` is the first one that counts as empty. -/
structure StopsAt (bytes : ℕ → UInt8) (k : ℕ) : Prop where
  zero : bytes (samplePos k) = 0
  before : ∀ m < k, bytes (samplePos m) ≠ 0

def bytesAt (mem : Memory) (addr : UInt32) (j : ℕ) : UInt8 := mem (addr + UInt32.ofNat j)

theorem samplePos_lt {k n : ℕ} (h : k < n) : samplePos k < 2048 * n := by
  cases k with
  | zero => exact Nat.mul_pos (by norm_num) h
  | succ k =>
    rw [samplePos]
    omega

theorem StopsAt.congr {bytes bytes' : ℕ → UInt8} {k : ℕ}
    (h : ∀ j < 2048 * (k + 1), bytes j = bytes' j) : StopsAt bytes k ↔ StopsAt bytes' k := by
  have hsame : ∀ m ≤ k, bytes (samplePos m) = bytes' (samplePos m) := fun m hm =>
    h _ (samplePos_lt (Nat.lt_succ_of_le hm))
  constructor
  · intro hs
    exact ⟨hsame k le_rfl ▸ hs.zero, fun m hm => hsame m hm.le ▸ hs.before m hm⟩
  · intro hs
    exact ⟨(hsame k le_rfl).trans hs.zero, fun m hm => by rw [hsame m hm.le]; exact hs.before m hm⟩

section Scan
variable {mem : Memory} {srcBuf : UInt32} {n k : ℕ} {filesize i blankCount : UInt32}

/-- Every iteration is one call of the recursion. -/
theorem Scan.countFilesize_eq (h : Scan mem srcBuf n filesize i blankCount) (fuel : ℕ) :
    countFilesize mem srcBuf (fuel + n) 0 0 0 =
      countFilesize mem srcBuf fuel filesize i blankCount := by
  induction h generalizing fuel with
  | start => rfl
  | count _ hmem hbyte ih =>
    rw [← Nat.add_assoc, Nat.add_right_comm, ih (fuel + 1), countFilesize,
      if_neg (UInt32.not_le.mpr hmem), if_pos hbyte]
  | blank _ hmem hbyte hblank ih =>
    rw [← Nat.add_assoc, Nat.add_right_comm, ih (fuel + 1), countFilesize,
      if_neg (UInt32.not_le.mpr hmem), if_neg (not_not.mpr hbyte), if_neg hblank]

def InUserMemory (srcBuf : UInt32) : Prop := srcBuf.toNat + 15 * 2048 ≤ userMemoryEnd.toNat

theorem InUserMemory.lt (h : InUserMemory srcBuf) {j : ℕ} (hj : j < 15 * 2048) :
    srcBuf + UInt32.ofNat j < userMemoryEnd := by
  have hend : userMemoryEnd.toNat = 0xC0000000 := rfl
  rw [InUserMemory] at h
  rw [UInt32.lt_iff_toNat_lt, UInt32.toNat_add, UInt32.toNat_ofNat']
  omega

theorem samplePos_succ (k : ℕ) : (UInt32.ofNat k + 1) * clusterSize + 1 =
    UInt32.ofNat (samplePos (k + 1)) := by
  rw [samplePos, UInt32.ofNat_add, UInt32.ofNat_mul, UInt32.ofNat_add, mul_comm]
  rfl

/-- While the bytes looked at are not zero, the scan goes from cluster to cluster. -/
theorem scan_clusters (hbuf : InUserMemory srcBuf) (hk : k ≤ 15)
    (hbefore : ∀ m < k, bytesAt mem srcBuf (samplePos m) ≠ 0) :
    Scan mem srcBuf k (UInt32.ofNat k) (UInt32.ofNat (samplePos k)) 0 := by
  induction k with
  | zero => exact .start
  | succ k ih =>
    have hscan := ih (Nat.le_of_succ_le hk) fun m hm => hbefore m (Nat.lt_succ_of_lt hm)
    have hnext := hscan.count (hbuf.lt (by linarith [samplePos_lt hk]))
      (hbefore k (Nat.lt_succ_self k))
    rwa [samplePos_succ, ← UInt32.ofNat_one, ← UInt32.ofNat_add] at hnext

/-- A zero is looked at again without going on. -/
theorem Scan.blanks (h : Scan mem srcBuf n filesize i 0) (hmem : srcBuf + i < userMemoryEnd)
    (hbyte : mem (srcBuf + i) = 0) {b : ℕ} (hb : b ≤ 10) :
    Scan mem srcBuf (n + b) filesize i (UInt32.ofNat b) := by
  induction b with
  | zero => exact h
  | succ b ih =>
    have hne : UInt32.ofNat b ≠ 10 := by
      intro heq
      have hnat := congrArg UInt32.toNat heq
      rw [UInt32.toNat_ofNat'] at hnat
      have hten : (10 : UInt32).toNat = 10 := rfl
      omega
    have hnext := (ih (Nat.le_of_succ_le hb)).blank hmem hbyte hne
    rwa [← UInt32.ofNat_one, ← UInt32.ofNat_add] at hnext

theorem StopsAt.countFilesize_eq (h : StopsAt (bytesAt mem srcBuf) k) (hbuf : InUserMemory srcBuf)
    (hk : k < 15) : countFilesize mem srcBuf countFuel 0 0 0 = .ok (UInt32.ofNat k) := by
  have hmem := hbuf.lt (show samplePos k < 15 * 2048 by linarith [samplePos_lt hk])
  have hzero : mem (srcBuf + UInt32.ofNat (samplePos k)) = 0 := h.zero
  have hscan := (scan_clusters hbuf hk.le h.before).blanks hmem hzero (le_refl 10)
  have hfuel : countFuel = (countFuel - (k + 11) + 1) + (k + 10) := by
    rw [countFuel]
    omega
  rw [hfuel, hscan.countFilesize_eq, countFilesize, if_neg (UInt32.not_le.mpr hmem),
    if_neg (not_not.mpr hzero), if_pos (by decide)]

theorem StopsAt.scan (h : StopsAt (bytesAt mem srcBuf) k)
    (hscan : Scan mem srcBuf n filesize i blankCount) :
    ∃ m ≤ k, filesize = UInt32.ofNat m ∧ i = UInt32.ofNat (samplePos m) := by
  induction hscan with
  | start => exact ⟨0, Nat.zero_le k, rfl, rfl⟩
  | count _ _ hbyte ih =>
    obtain ⟨m, hm, rfl, rfl⟩ := ih
    have hne : m ≠ k := by
      rintro rfl
      exact hbyte h.zero
    refine ⟨m + 1, by omega, ?_, samplePos_succ m⟩
    rw [UInt32.ofNat_add, UInt32.ofNat_one]
  | blank _ _ _ _ ih => exact ih

/-- The scan stays within the buffer exactly when one of the fifteen bytes is zero. -/
theorem scanWithin_iff (hbuf : InUserMemory srcBuf) :
    ScanWithin mem srcBuf (15 * 2048) ↔ ∃ k < 15, StopsAt (bytesAt mem srcBuf) k := by
  constructor
  · intro hwithin
    by_contra hnone
    have hbytes : ∀ k < 15, bytesAt mem srcBuf (samplePos k) ≠ 0 := by
      intro k hk
      induction k using Nat.strong_induction_on with
      | _ k ih =>
        intro hzero
        exact hnone ⟨k, hk, hzero, fun m hm => ih m hm (hm.trans hk)⟩
    exact absurd (hwithin _ _ _ _ (scan_clusters hbuf le_rfl hbytes)) (by decide)
  · rintro ⟨k, hk, hstop⟩ n filesize i blankCount hscan
    obtain ⟨m, hm, -, rfl⟩ := hstop.scan hscan
    rw [UInt32.toNat_ofNat']
    have hpos := samplePos_lt (lt_of_le_of_lt hm hk)
    exact lt_of_le_of_lt (Nat.mod_le _ _) (by omega)

end Scan

theorem overlayName_eq_iff {src dest : StringN} (hsrc : Word src) (hdest : Word dest) :
    overlayName dest src = padName dest.chars ↔ src.len ≤ dest.len := by
  rw [overlayName_eq]
  constructor
  · intro heq
    have hchars := (overlay_word hsrc hdest).nameChars
    rw [heq, hdest.nameChars] at hchars
    exact List.drop_eq_nil_iff.mp (List.self_eq_append_right.mp hchars)
  · intro hle
    rw [List.drop_eq_nil_of_le hle, List.append_nil]

def srcRequest (src : StringN) (srcBuf parentClusterNumber : UInt32) : DriverRequest :=
  ⟨srcBuf, padName src.chars, fun _ => 0, parentClusterNumber, 15 * clusterSize⟩

def destRequest (src dest : StringN) (srcBuf parentClusterNumber : UInt32) (k : ℕ) :
    DriverRequest :=
  { srcRequest src srcBuf parentClusterNumber with
    bufferSize := UInt32.ofNat k * clusterSize
    name := overlayName dest src }

/-- What `cp` prints at its end, whatever `write` has returned besides 1. -/
def copiedTexts (dest : StringN) : List PutsArgs :=
  [⟨ascii "cp: File successfully copied to ", biosLightGreen, 0x0⟩, ⟨dest.chars, biosYellow, 0x0⟩,
    ⟨ascii "!", biosLightGreen, 0x0⟩]

def existsText : PutsArgs :=
  ⟨ascii "cp error: File with the same name already exists in current directory!",
    biosLightRed, 0x0⟩

theorem existsText_ne (dest : StringN) : [existsText] ≠ copiedTexts dest := by
  simp [copiedTexts]

section Run
variable {sh : Globals} {s : System} {p : Cell} {src dest : StringN} {stack mem : Memory}
  {srcBuf : UInt32} {k : ℕ}

theorem run_readCall {request : DriverRequest} {r : Int8} {stores : List (UInt32 × Cluster)}
    (h : read request s.storage = .ok (r, stores)) :
    run (readCall request stack) s = .ok ((r, applyStores stack stores), s) := by
  have hexec : (Syscall.read request stack).exec s = .ok ((r, applyStores stack stores), s) := by
    rw [Syscall.exec, h]
  exact (Program.run_perform _).trans hexec

theorem run_printCopied (dest : StringN) (s : System) :
    run (printDone "cp: File successfully copied to " dest.chars) s =
      .ok ((), ⟨s.storage, s.output ++ copiedTexts dest⟩) := by
  have hputs : ∀ a b c : PutsArgs, s.output ++ [a] ++ [b] ++ [c] = s.output ++ [a, b, c] := by simp
  rw [copiedTexts, ← hputs]
  rfl

theorem run_cp (hsrc : Word src) (hdest : Word dest) (hcluster : sh.currentDirCluster = p.number)
    (hread : run (readCall (srcRequest src srcBuf p.number) stack) s = .ok ((0, mem), s))
    (hcount : countFilesize mem srcBuf countFuel 0 0 0 = .ok (UInt32.ofNat k)) {r : Int8}
    {t : Storage} (hwrite : write mem (destRequest src dest srcBuf p.number k) s.storage =
      .ok (r, t)) (fuel : ℕ) :
    ∃ sh', run (Command.exec fuel sh (.cp src dest stack srcBuf)) s = .ok (sh', ⟨t, s.output ++
      if r = 1 then [existsText] else copiedTexts dest⟩) ∧
      (r ≠ 1 → sh'.currentDir = t.volume.table p) := by
  obtain ⟨hle, hpos⟩ := hsrc.accepted hdest
  rw [srcRequest, ← hcluster] at hread
  rw [destRequest, srcRequest, ← hcluster] at hwrite
  rw [Command.exec, cp, if_neg hle, if_neg hpos, run_bind_ok hread]
  dsimp only
  rw [if_neg (by decide), if_neg (by decide), if_neg (by decide), hcount]
  rw [run_bind_ok (run_ofExcept _), run_bind_ok (run_writeCall hwrite)]
  by_cases hr : r = 1
  · rw [if_pos hr, if_pos hr]
    exact ⟨_, rfl, fun hne => absurd hr hne⟩
  · have hto : Globals.currentDirCluster { sh with cpDestCluster := sh.currentDirCluster } =
        p.number := hcluster
    rw [if_neg hr, if_neg hr, run_bind_ok (run_refresh hto)]
    dsimp only
    rw [if_neg (not_not.mpr rfl), run_bind_ok (run_printCopied dest _)]
    exact ⟨_, rfl, fun _ => rfl⟩

end Run

/-- The file in slot `i` of `p`, with its chain in the cells of `l`, has the name `src` and fits
into the buffer. -/
structure Source (v : Volume) (src : StringN) (p : Cell) (i : Fin 64) (l : List Cell) : Prop where
  entry : v.LiveEntry p i
  named : Names src (v.table p i)
  file : ¬(v.table p i).IsFolder
  chain : v.EntryChain (v.table p i) l
  short : l.length ≤ 15

/-- Slot `k` of `p` has become a copy of the file in slot `i`, and nothing else has changed. -/
structure Copy (v v' : Volume) (p : Cell) (i : Fin 64) (dest : StringN) (k : Fin 64) : Prop where
  entry : v'.LiveEntry p k
  named : Names dest (v'.table p k)
  file : ¬(v'.table p k).IsFolder
  size : (v'.table p k).filesize = (v.table p i).filesize
  contents : ∃ l l', v.EntryChain (v.table p i) l ∧ v'.EntryChain (v'.table p k) l' ∧
    ∀ j < (v.table p i).filesize.toNat, v'.contents l' j = v.contents l j
  others : ∀ j, j ≠ k → v'.table p j = v.table p j
  kept : ∀ {d j}, v.LiveEntry d j → v.Kept v' p d j

/-- If `cp` prints success there is a copy, and its scan stays within the buffer. -/
structure CopiesExactly (src dest : StringN) (stack : Memory) (srcBuf : UInt32) (sh : Globals)
    (s : System) (p : Cell) (i : Fin 64) : Prop where
  copied : ∀ fuel sh' s', run (Command.exec fuel sh (.cp src dest stack srcBuf)) s = .ok (sh', s') →
    s'.output = s.output ++ copiedTexts dest → sh'.currentDir = s'.storage.volume.table p ∧
      ∃ k, Copy s.storage.volume s'.storage.volume p i dest k
  within : ∀ r mem t, run (readCall (srcRequest src srcBuf p.number) stack) s = .ok ((r, mem), t) →
    ScanWithin mem srcBuf (15 * 2048)

def readBuffer (v : Volume) (l : List Cell) (stack : Memory) (srcBuf : UInt32) (j : ℕ) : UInt8 :=
  if j < 2048 * l.length then v.contents l j else bytesAt stack srcBuf j

theorem bytesAt_read (v : Volume) {l : List Cell} (stack : Memory) (srcBuf : UInt32)
    (hlen : l.length ≤ 15) {j : ℕ} (hj : j < 2 ^ 32) :
    bytesAt (applyStores stack (chainStores v srcBuf l)) srcBuf j =
      readBuffer v l stack srcBuf j := by
  rw [bytesAt, readBuffer]
  split_ifs with hin
  · exact applyStores_chainStores v stack srcBuf hin (by omega)
  · exact applyStores_behind v stack srcBuf (not_lt.mp hin) hj

section Exact
variable {sh : Globals} {s : System} {p : Cell} {i : Fin 64} {l : List Cell} {src dest : StringN}
  {stack : Memory} {srcBuf : UInt32} {k : ℕ}

theorem Source.length_eq {v : Volume} (h : Source v src p i l) (hv : v.WellFormed) :
    l.length = (clusterCount (v.table p i).filesize).toNat := by
  obtain ⟨m, hm, -, -, hlen⟩ := hv.chain h.entry
  rw [h.chain.unique hm, hlen, Volume.chainLength, if_neg h.file]

theorem Source.run_read (h : Source s.storage.volume src p i l) (hs : s.storage.Consistent)
    (hsrc : Word src) (stack : Memory) (srcBuf : UInt32) :
    run (readCall (srcRequest src srcBuf p.number) stack) s =
      .ok ((0, applyStores stack (chainStores s.storage.volume srcBuf l)), s) := by
  refine run_readCall (read_file hs rfl (hsrc.named p.number 0) h.entry
    ⟨h.named.name, h.named.ext⟩ h.file h.chain ?_)
  rw [← h.length_eq hs.wellFormed]
  exact h.short.trans (show 15 ≤ (15 * clusterSize / clusterSize).toNat by decide)

theorem stopsAt_read (v : Volume) (stack : Memory) (srcBuf : UInt32) (hlen : l.length ≤ 15)
    (hk : k < 15) :
    StopsAt (bytesAt (applyStores stack (chainStores v srcBuf l)) srcBuf) k ↔
      StopsAt (readBuffer v l stack srcBuf) k :=
  StopsAt.congr fun _ hj => bytesAt_read v stack srcBuf hlen (by omega)

theorem destRequest_size (src dest : StringN) (srcBuf : UInt32) (hk : k < 15) :
    (destRequest src dest srcBuf p.number k).bufferSize.toNat = 2048 * k := by
  have hunit : clusterSize.toNat = 2048 := rfl
  rw [destRequest, UInt32.toNat_mul, UInt32.toNat_ofNat', hunit]
  omega

theorem destRequest_clusters (src dest : StringN) (srcBuf : UInt32) (hk : k < 15) :
    clustersFor (destRequest src dest srcBuf p.number k).bufferSize = k := by
  rw [clustersFor, destRequest_size src dest srcBuf hk]
  omega

theorem Source.run_cp (h : Source s.storage.volume src p i l) (hs : s.storage.Consistent)
    (hsrc : Word src) (hdest : Word dest) (hcluster : sh.currentDirCluster = p.number)
    (hbuf : InUserMemory srcBuf) (hk : k < 15)
    (hstop : StopsAt (readBuffer s.storage.volume l stack srcBuf) k) : ∃ r t,
    write (applyStores stack (chainStores s.storage.volume srcBuf l))
      (destRequest src dest srcBuf p.number k) s.storage = .ok (r, t) ∧
    WriteReport (destRequest src dest srcBuf p.number k) s.storage p r t ∧ ∀ fuel, ∃ sh',
      run (Command.exec fuel sh (.cp src dest stack srcBuf)) s = .ok (sh', ⟨t, s.output ++
        if r = 1 then [existsText] else copiedTexts dest⟩) ∧
      (r ≠ 1 → sh'.currentDir = t.volume.table p) := by
  have hcount := ((stopsAt_read _ stack srcBuf h.short hk).mpr hstop).countFilesize_eq hbuf hk
  have hsize : (destRequest src dest srcBuf p.number k).bufferSize.toNat ≤ maxFileSize := by
    rw [destRequest_size src dest srcBuf hk, maxFileSize]
    omega
  obtain ⟨r, t, hwrite, hreport⟩ := write_report hs
    (applyStores stack (chainStores s.storage.volume srcBuf l)) rfl h.entry.existing hsize
  have hread := h.run_read hs hsrc stack srcBuf
  exact ⟨r, t, hwrite, hreport, Shell.run_cp hsrc hdest hcluster hread hcount hwrite⟩

/-- A call of `write` that returns 0 has made a copy if the name and the size are right. -/
theorem Source.copy (h : Source s.storage.volume src p i l) (hs : s.storage.Consistent)
    (hsrc : Word src) (hdest : Word dest) (hk : k < 15) (hpos : 0 < k)
    (hsize : (s.storage.volume.table p i).filesize.toNat = 2048 * k) (hle : src.len ≤ dest.len)
    {t : Storage} (hwrite : write (applyStores stack (chainStores s.storage.volume srcBuf l))
      (destRequest src dest srcBuf p.number k) s.storage = .ok (0, t)) :
    ∃ j, Copy s.storage.volume t.volume p i dest j := by
  have hbytes := destRequest_size (p := p) src dest srcBuf hk
  have hlen : l.length = k := by
    rw [h.length_eq hs.wellFormed, clusterCount_toNat (by omega), hsize]
    omega
  have heff := effect_of_write hs h.entry.existing rfl hwrite
  obtain ⟨-, j, c, rest, w, rfl⟩ := write_done rfl hwrite
  have hstored := w.stored hs h.entry.existing (by rw [hbytes, maxFileSize]; omega)
    (applyStores stack (chainStores s.storage.volume srcBuf l))
  have hname := (overlayName_eq_iff hsrc hdest).mpr hle
  refine ⟨j, hstored.entry, ⟨hstored.entry.live, hstored.named.1.trans hname, hstored.named.2⟩,
    ?_, ?_, ⟨l, c :: rest, h.chain, hstored.chain, fun b hb => ?_⟩, fun b hb => ?_, fun he => ?_⟩
  · intro hfolder
    rw [hstored.kind.mp hfolder] at hbytes
    have hzero : (0 : UInt32).toNat = 0 := rfl
    omega
  · rw [hstored.size, ← UInt32.toNat_inj, hbytes, hsize]
  · rw [hsize] at hb
    have hread := bytesAt_read s.storage.volume stack srcBuf h.short (show b < 2 ^ 32 by omega)
    rw [hstored.bytes b (by omega)]
    refine hread.trans ?_
    rw [readBuffer, if_pos (by omega)]
  · rw [writeResult_table, Function.update_of_ne hb]
  · refine (heff.change hs).kept hs h.entry.existing he ?_
    rintro _ ⟨⟩

/-- An entry of `p`, the link slots with them, has the name and no extension. -/
def NameTaken (v : Volume) (p : Cell) (name : Bytes 8) : Prop :=
  ∃ j, (v.table p j).name = name ∧ (v.table p j).ext = fun _ => 0

structure RoomFor (s : Storage) (p : Cell) (k : ℕ) : Prop where
  slot : ∃ j, ¬(s.volume.table p j).Live
  cells : k ≤ (freeCells s.clusterMap).length

/-- The scan stops at a cluster of the buffer, and then either the name of the copy is in use or its
name, its size and the room are right. -/
def Copyable (s : Storage) (p : Cell) (i : Fin 64) (l : List Cell) (src dest : StringN)
    (stack : Memory) (srcBuf : UInt32) : Prop :=
  ∃ k < 15, StopsAt (readBuffer s.volume l stack srcBuf) k ∧
    (NameTaken s.volume p (overlayName dest src) ∨ src.len ≤ dest.len ∧ 0 < k ∧
      (s.volume.table p i).filesize.toNat = 2048 * k ∧ RoomFor s p k)

theorem CopiesExactly.copyable (hcopies : CopiesExactly src dest stack srcBuf sh s p i)
    (hs : s.storage.Consistent) (h : Source s.storage.volume src p i l)
    (hsrc : Word src) (hdest : Word dest)
    (hnew : ∀ j, s.storage.volume.LiveEntry p j → ¬Names dest (s.storage.volume.table p j))
    (hcluster : sh.currentDirCluster = p.number) (hbuf : InUserMemory srcBuf) :
    Copyable s.storage p i l src dest stack srcBuf := by
  obtain ⟨k, hk, hstop⟩ := (scanWithin_iff hbuf).mp
    (hcopies.within _ _ _ (h.run_read hs hsrc stack srcBuf))
  rw [stopsAt_read _ stack srcBuf h.short hk] at hstop
  refine ⟨k, hk, hstop, ?_⟩
  obtain ⟨r, t, hwrite, hreport, hrun⟩ := h.run_cp hs hsrc hdest hcluster hbuf hk hstop
  by_cases htaken : NameTaken s.storage.volume p (overlayName dest src)
  · exact .inl htaken
  have hr1 : r ≠ 1 := fun hr => htaken (hreport.taken.mp hr)
  obtain ⟨sh', hrun, -⟩ := hrun 0
  rw [if_neg hr1] at hrun
  have hcopied := hcopies.copied _ _ _ hrun rfl
  obtain ⟨-, j, hcopy⟩ := hcopied
  dsimp only at hcopy
  -- Without a new entry success is printed all the same.
  have hr0 : r = 0 := by
    by_contra hr0
    rw [hreport.unchanged hr0] at hcopy
    exact hnew j hcopy.entry hcopy.named
  obtain ⟨-, hslot, hroom⟩ := hreport.done.mp hr0
  rw [destRequest_clusters src dest srcBuf hk] at hroom
  obtain ⟨j', hlowest, hentry⟩ := hreport.entry hr0
  obtain rfl : j' = j := by
    by_contra hne
    have hlive := hentry.entry.live
    rw [hcopy.others j' hne] at hlive
    exact hlowest.1 hlive
  have hname : overlayName dest src = padName dest.chars :=
    hentry.named.1.symm.trans hcopy.named.name
  have hsize := hentry.size.symm.trans hcopy.size
  have hfile : k ≠ 0 := by
    rintro rfl
    exact hcopy.file (hentry.kind.mpr (by rw [destRequest]; rfl))
  refine .inr ⟨(overlayName_eq_iff hsrc hdest).mp hname, Nat.pos_of_ne_zero hfile, ?_, hslot,
    (Nat.le_max_right 1 k).trans hroom⟩
  rw [← hsize, destRequest_size src dest srcBuf hk]

theorem Copyable.copiesExactly (hcopyable : Copyable s.storage p i l src dest stack srcBuf)
    (hs : s.storage.Consistent) (h : Source s.storage.volume src p i l)
    (hsrc : Word src) (hdest : Word dest) (hcluster : sh.currentDirCluster = p.number)
    (hbuf : InUserMemory srcBuf) : CopiesExactly src dest stack srcBuf sh s p i := by
  obtain ⟨k, hk, hstop, hcase⟩ := hcopyable
  obtain ⟨r, t, hwrite, hreport, hrun⟩ := h.run_cp hs hsrc hdest hcluster hbuf hk hstop
  refine ⟨fun fuel sh' s' hcp hout => ?_, fun r mem t hread => ?_⟩
  · obtain ⟨sh₁, hrun, hshown⟩ := hrun fuel
    obtain ⟨rfl, rfl⟩ := Prod.mk.inj (Except.ok.inj (hrun.symm.trans hcp))
    have hr1 : r ≠ 1 := by
      intro hr
      rw [if_pos hr] at hout
      exact existsText_ne dest (List.append_cancel_left hout)
    refine ⟨hshown hr1, ?_⟩
    rcases hcase with htaken | ⟨hle, hpos, hsize, hroom⟩
    · exact absurd (hreport.taken.mpr htaken) hr1
    · have hr0 : r = 0 := by
        refine hreport.done.mpr ⟨fun j hm => hr1 (hreport.taken.mpr ⟨j, hm⟩), hroom.slot, ?_⟩
        rw [destRequest_clusters src dest srcBuf hk]
        exact max_le (le_trans hpos hroom.cells) hroom.cells
      rw [hr0] at hwrite
      exact h.copy hs hsrc hdest hk hpos hsize hle hwrite
  · rw [h.run_read hs hsrc stack srcBuf] at hread
    obtain ⟨hanswer, -⟩ := Prod.mk.inj (Except.ok.inj hread)
    obtain ⟨-, rfl⟩ := Prod.mk.inj hanswer
    exact (scanWithin_iff hbuf).mpr ⟨k, hk, (stopsAt_read _ stack srcBuf h.short hk).mpr hstop⟩

/-- For every directory, every file in it and every new name, `cp` copies exactly when the condition
is met. -/
theorem copiesExactly_iff (hs : s.storage.Consistent) (h : Source s.storage.volume src p i l)
    (hsrc : Word src) (hdest : Word dest)
    (hnew : ∀ j, s.storage.volume.LiveEntry p j → ¬Names dest (s.storage.volume.table p j))
    (hcluster : sh.currentDirCluster = p.number) (hbuf : InUserMemory srcBuf) :
    CopiesExactly src dest stack srcBuf sh s p i ↔
      Copyable s.storage p i l src dest stack srcBuf :=
  ⟨fun hcopies => hcopies.copyable hs h hsrc hdest hnew hcluster hbuf,
    fun hcopyable => hcopyable.copiesExactly hs h hsrc hdest hcluster hbuf⟩

end Exact

theorem nameTaken_iff {v : Volume} (hv : v.WellFormed) {p : Cell} (hp : v.Existing p)
    {str : StringN} (hw : Word str) : NameTaken v p (padName str.chars) ↔ ∃ j, Names str (v.table p j) := by
  constructor
  · rintro ⟨j, hname, hext⟩
    by_cases hlive : (v.table p j).Live
    · exact ⟨j, hlive, hname, hext⟩
    · rw [hv.free_zero hp j hlive] at hname hext
      exact absurd ⟨hname, hext⟩ (hw.named p.number 0)
  · rintro ⟨j, hn⟩
    exact ⟨j, hn.name, hn.ext⟩

def nameB : StringN := ⟨ascii "b"⟩

theorem nameB_word : Word nameB := ⟨by decide, by decide, ne_zero_of_all (by decide)⟩

theorem nameA_len_le : nameA.len ≤ nameB.len := by decide

def exampleBuf : UInt32 := 0x1000

theorem exampleBuf_inUserMemory : InUserMemory exampleBuf := by
  rw [InUserMemory]
  decide

/-- An image whose root has one entry, the file `a` in one cluster without zeros. -/
structure OneFile (size : UInt32) (s : Storage) (i : Fin 64) (l : List Cell) : Prop
    extends Image s where
  source : Source s.volume nameA 2 i l
  filesize : (s.volume.table 2 i).filesize = size
  stops : StopsAt (readBuffer s.volume l (fun _ => 0) exampleBuf) 1
  fresh : ∀ j, ¬Names nameB (s.volume.table 2 j)
  room : RoomFor s 2 1

theorem recordRoot_freeCells :
    (freeCells (recordRoot (createFat32 blankStorage)).clusterMap).length = 509 := formattedMap_free

theorem requiredSlots_oneCluster {size : UInt32} (h0 : size ≠ 0) (hsize : size.toNat ≤ 2048) :
    (requiredSlots size).toNat = 1 := by
  have hpos := clustersFor_pos h0
  rw [requiredSlots_of_valid (hsize.trans (by decide))]
  rw [clustersFor] at hpos ⊢
  omega

theorem write_oneCluster {name : StringN} (hw : Word name) (hroot : name.chars ≠ ascii "root")
    {size : UInt32} (hrequired : (requiredSlots size).toNat = 1) (mem : Memory) : ∃ s,
    write mem (namedRequest (padName name.chars) (Cell.number 2) size)
      (recordRoot (createFat32 blankStorage)) = .ok (0, s) := by
  have hs := (recordRoot_image blankStorage).toConsistent
  have hfresh : ∀ i, ¬(namedRequest (padName name.chars) (Cell.number 2) size).Matches
      ((recordRoot (createFat32 blankStorage)).volume.table 2 i) := by
    intro i hm
    obtain ⟨j, hn⟩ := (nameTaken_iff hs.wellFormed .refl hw).mp ⟨i, hm.1, hm.2⟩
    exact recordRoot_names blankStorage hw hroot j hn
  refine write_succeeds mem rfl (hs.parent_cell .refl) hfresh (i := 2) (by decide)
    ((recordRoot_fresh _).not_live le_rfl) ?_ ?_
  · rw [namedRequest, hrequired]
    exact Nat.one_pos
  · rw [namedRequest, hrequired, recordRoot_freeCells]
    decide

theorem oneFile {size : UInt32} (h0 : size ≠ 0) (hsize : size.toNat ≤ 2048) : ∃ s i l,
    write (fun _ => 7) (namedRequest (padName nameA.chars) (Cell.number 2) size)
      (recordRoot (createFat32 blankStorage)) = .ok (0, s) ∧ OneFile size s i l := by
  have himage := recordRoot_image blankStorage
  have hs := himage.toConsistent
  have hrequired := requiredSlots_oneCluster h0 hsize
  obtain ⟨s, hwrite⟩ := write_oneCluster nameA_word (by decide) hrequired fun _ => 7
  have heff := effect_of_write hs .refl rfl hwrite
  obtain ⟨-, k, c, rest, w, rfl⟩ := write_done rfl hwrite
  have hstored := w.stored hs .refl (hsize.trans (by decide)) fun _ => 7
  have hlen : (c :: rest).length = 1 := w.length.trans hrequired
  have hfile : ¬((writeResult (fun _ => 7) _ _ 2 k c rest).volume.table 2 k).IsFolder :=
    fun hfolder => h0 (hstored.kind.mp hfolder)
  have htable := writeResult_table (fun _ => 7) (namedRequest (padName nameA.chars) (Cell.number 2)
    size) (recordRoot (createFat32 blankStorage)) 2 k c rest
  have hnamed : Names nameA ((writeResult (fun _ => 7) _ _ 2 k c rest).volume.table 2 k) :=
    ⟨hstored.entry.live, hstored.named.1, hstored.named.2⟩
  refine ⟨_, k, c :: rest, hwrite, ?_, ⟨hstored.entry, hnamed, hfile, hstored.chain, by omega⟩,
    hstored.size, ⟨?_, ?_⟩, ?_, ?_, ?_⟩
  · refine himage.of_effect .refl rfl ?_ heff
    rintro _ _ ⟨⟩
    exact nameA_word.tidy
  · rw [readBuffer, hlen, if_neg (by decide)]
    rfl
  · intro m hm
    obtain rfl := Nat.lt_one_iff.mp hm
    have hpos : 0 < size.toNat := Nat.pos_of_ne_zero fun hzero => h0 (UInt32.toNat_inj.mp hzero)
    rw [readBuffer, hlen, if_pos (by decide), samplePos, hstored.bytes 0 hpos, bufferBytes]
    decide
  · intro j hn
    by_cases hj : j = k
    · subst j
      have hchars := (hn.entryName nameB_word).symm.trans (hnamed.entryName nameA_word)
      exact absurd hchars (by decide)
    · rw [htable, Function.update_of_ne hj] at hn
      exact recordRoot_names blankStorage nameB_word (by decide) j hn
  · obtain ⟨j, hj, hjk⟩ := exists_other_slot k
    refine ⟨j, ?_⟩
    rw [htable, Function.update_of_ne hjk]
    exact (recordRoot_fresh _).not_live hj
  · have hcount := w.free_count hs fun _ => 7
    rw [recordRoot_freeCells] at hcount
    omega

namespace OneFile
variable {size : UInt32} {s : Storage} {i : Fin 64} {l : List Cell}

theorem boots (h : OneFile size s i l) :
    ∃ sh, Boots s (sh, ⟨s, []⟩) ∧ sh.currentDirCluster = Cell.number 2 := by
  obtain ⟨sh, hboot⟩ := h.toImage.boots ⟨fun _ => .zero, ⟨[]⟩, 0, fun _ => .zero, ⟨[]⟩, 0, 0⟩ []
  exact ⟨sh, hboot, (boots_inStep h.toImage hboot).2.1.cluster⟩

theorem not_taken (h : OneFile size s i l) : ¬NameTaken s.volume 2 (overlayName nameB nameA) := by
  rw [(overlayName_eq_iff nameA_word nameB_word).mpr nameA_len_le,
    nameTaken_iff h.wellFormed .refl nameB_word]
  exact not_exists.mpr h.fresh

end OneFile

theorem copiesExactly_fullCluster : ∃ s i l sh, OneFile 2048 s i l ∧ Boots s (sh, ⟨s, []⟩) ∧
    CopiesExactly nameA nameB (fun _ => 0) exampleBuf sh ⟨s, []⟩ 2 i := by
  obtain ⟨s, i, l, -, h⟩ := oneFile (show (2048 : UInt32) ≠ 0 by decide) (by decide)
  obtain ⟨sh, hboot, hcluster⟩ := h.boots
  have hcopyable : Copyable s 2 i l nameA nameB (fun _ => 0) exampleBuf :=
    ⟨1, by decide, h.stops, .inr ⟨nameA_len_le, Nat.one_pos, by rw [h.filesize]; rfl, h.room⟩⟩
  exact ⟨s, i, l, sh, h, hboot, (copiesExactly_iff (s := ⟨s, []⟩) h.toConsistent h.source
    nameA_word nameB_word (fun j _ => h.fresh j) hcluster exampleBuf_inUserMemory).mpr hcopyable⟩

/-- The copy of a file of five bytes has 2048 bytes. -/
theorem cp_fills_cluster : ∃ s i l sh sh' t k,
    write (fun _ => 7) (namedRequest (padName nameA.chars) (Cell.number 2) 5)
      (recordRoot (createFat32 blankStorage)) = .ok (0, s) ∧
    Boots s (sh, ⟨s, []⟩) ∧ Source s.volume nameA 2 i l ∧ (s.volume.table 2 i).filesize = 5 ∧
    (∀ j, ¬Names nameB (s.volume.table 2 j)) ∧
    run (Command.exec 0 sh (.cp nameA nameB (fun _ => 0) exampleBuf)) ⟨s, []⟩ =
      .ok (sh', ⟨t, copiedTexts nameB⟩) ∧
    t.volume.LiveEntry 2 k ∧ Names nameB (t.volume.table 2 k) ∧
    (t.volume.table 2 k).filesize = 2048 ∧
    ¬CopiesExactly nameA nameB (fun _ => 0) exampleBuf sh ⟨s, []⟩ 2 i := by
  obtain ⟨s, i, l, hfile, h⟩ := oneFile (show (5 : UInt32) ≠ 0 by decide) (by decide)
  obtain ⟨sh, hboot, hcluster⟩ := h.boots
  obtain ⟨r, t, -, hreport, hrun⟩ := h.source.run_cp (s := ⟨s, []⟩) h.toConsistent nameA_word
    nameB_word hcluster exampleBuf_inUserMemory (by decide) h.stops
  have hr : r = 0 := by
    refine hreport.done.mpr ⟨fun j hm => h.not_taken ⟨j, hm⟩, h.room.slot, ?_⟩
    rw [destRequest_clusters _ _ _ (by decide)]
    exact h.room.cells
  subst hr
  obtain ⟨sh', hrun, -⟩ := hrun 0
  obtain ⟨k, -, hentry⟩ := hreport.entry rfl
  have hname := (overlayName_eq_iff nameA_word nameB_word).mpr nameA_len_le
  refine ⟨s, i, l, sh, sh', t, k, hfile, hboot, h.source, h.filesize, h.fresh, hrun, hentry.entry,
    ⟨hentry.entry.live, hentry.named.1.trans hname, hentry.named.2⟩, hentry.size, fun hexact => ?_⟩
  obtain ⟨m, -, -, htaken | ⟨-, -, hsize, -⟩⟩ := hexact.copyable (s := ⟨s, []⟩) h.toConsistent
    h.source nameA_word nameB_word (fun j _ => h.fresh j) hcluster exampleBuf_inUserMemory
  · exact h.not_taken htaken
  · rw [h.filesize] at hsize
    have hfive : (5 : UInt32).toNat = 5 := rfl
    omega

end Os2024.Shell
