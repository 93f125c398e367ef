import Os2024.Disk.Drive

/-! # Waiting, commands, and the words of one block

A wait ends once the drive is ready, a command puts the low 28 bits of the address
and the count into the registers, and 256 accesses of the data port move the words
of one block in their order.
-/

namespace Os2024.Disk
open Library.PackedLayout Library.BlockStore Library.CallTrees FileSystem

theorem getD_map_range {α : Type} (f : ℕ → α) (a : α) {n i : ℕ} (h : i < n) :
    ((List.range n).map f).getD i a = f i := by
  simp [List.getD, h]

theorem blockWords_element (mem : Memory) (ptr : UInt32) (i : ℕ) :
    (blockWords fun k => ((List.range 256).map fun j =>
      mem.element halfword ptr (256 * i + j)).getD k.val 0) = mem.element (bytes 512) ptr i := by
  have hword : ∀ k : Fin 256, ((List.range 256).map fun j =>
      mem.element halfword ptr (256 * i + j)).getD k.val 0 =
        mem.element halfword (ptr + .ofNat (512 * i)) k.val := by
    intro k
    have haddr : ptr + UInt32.ofNat (2 * (256 * i + k.val)) =
        ptr + UInt32.ofNat (512 * i) + UInt32.ofNat (2 * k.val) := by
      rw [add_assoc, ← UInt32.ofNat_add]
      congr 2
      ring
    rw [getD_map_range _ _ k.isLt, Memory.element, Memory.element, haddr]
  rw [blockWords, funext hword, Memory.array_element]
  rfl

namespace DriveState
variable {x : DriveState} {lba : ℕ}

theorem send_of_phase (phase : Phase) (n : ℕ) :
    ({ x with phase } : DriveState).send lba n = x.send lba n := by
  cases n <;> rfl

theorem receive_of_phase (phase : Phase) (n : ℕ) :
    ({ x with phase } : DriveState).receive lba n = x.receive lba n := by
  cases n <;> rfl

def addressed (logicalBlockAddress : UInt32) (blockCount : UInt8) (x : DriveState) : DriveState :=
  { x with taskFile := {
      device := (0xE0 : UInt8) ||| (logicalBlockAddress >>> 24 &&& 0xF).toUInt8
      sectorCount := blockCount
      lbaLow := logicalBlockAddress.toUInt8
      lbaMid := (logicalBlockAddress >>> 8).toUInt8
      lbaHigh := (logicalBlockAddress >>> 16).toUInt8 } }

/-- The upper four bits of a block address are lost. -/
theorem addressed_address (logicalBlockAddress : UInt32) (blockCount : UInt8) (x : DriveState) :
    (x.addressed logicalBlockAddress blockCount).taskFile.address =
      logicalBlockAddress.toNat % 2 ^ 28 := by
  have hdevice : (((0xE0 : UInt8) ||| (logicalBlockAddress >>> 24 &&& 0xF).toUInt8) &&& 0xF).toNat =
      logicalBlockAddress.toNat / 2 ^ 24 % 16 := by
    have hmask : ∀ x : UInt8, ((0xE0 : UInt8) ||| x) &&& 0xF = x &&& 0xF := by
      intro x
      apply UInt8.toBitVec_inj.mp
      simp [BitVec.and_or_distrib_right]
    rw [hmask]
    simp [Nat.shiftRight_eq_div_pow, Nat.and_two_pow_sub_one_eq_mod _ 4]
  simp only [TaskFile.address, addressed, hdevice]
  simp [Nat.shiftRight_eq_div_pow]
  omega

end DriveState

namespace Drive
variable {δ : Type} {D : Drive δ} {fuel : ℕ} {d d' : δ} {lba remaining : ℕ}

theorem run_inb {port : UInt16} {data : UInt8} (h : D.exec (.inb port) d = .ok (data, d')) :
    (inb port).run D.exec d = .ok (data, d') := (Program.run_perform _).trans h

theorem run_outb {port : UInt16} {data : UInt8} (h : D.exec (.outb port data) d = .ok ((), d')) :
    (outb port data).run D.exec d = .ok ((), d') := (Program.run_perform _).trans h

theorem run_inw {port data : UInt16} (h : D.exec (.inw port) d = .ok (data, d')) :
    (inw port).run D.exec d = .ok (data, d') := (Program.run_perform _).trans h

theorem run_outw {port data : UInt16} (h : D.exec (.outw port data) d = .ok ((), d')) :
    (outw port data).run D.exec d = .ok ((), d') := (Program.run_perform _).trans h

namespace Spec

theorem status_clear (hD : D.Spec fuel) (hbusy : D.busy d = 0) : ∃ (status : UInt8) (d' : δ),
    D.exec (.inb 0x1F7) d = .ok (status, d') ∧ status &&& ataStatusBsy = 0 ∧ D.busy d' = 0 ∧
      D.state d' = D.state d := by
  by_cases hunready : D.unready d = 0
  · obtain ⟨status, d', hexec, hbsy, -, hsettled, hstate⟩ := hD.status_settled d ⟨hbusy, hunready⟩
    exact ⟨status, d', hexec, hbsy, hsettled.busy, hstate⟩
  · obtain ⟨status, d', hexec, hbsy, -, hbusy', -, hstate⟩ :=
      hD.status_unready d hbusy (Nat.pos_of_ne_zero hunready)
    exact ⟨status, d', hexec, hbsy, hbusy', hstate⟩

theorem run_ataBusyWait (hD : D.Spec fuel) {n : ℕ} (h : D.busy d < n) :
    ∃ d', (ataBusyWait n).run D.exec d = .ok ((), d') ∧ D.busy d' = 0 ∧ D.state d' = D.state d := by
  induction n generalizing d with
  | zero => omega
  | succ n ih =>
    by_cases hbusy : D.busy d = 0
    · obtain ⟨status, d', hexec, hbsy, hbusy', hstate⟩ := hD.status_clear hbusy
      refine ⟨d', ?_, hbusy', hstate⟩
      rw [ataBusyWait, Program.run_bind_ok (run_inb hexec), if_neg (not_not.mpr hbsy),
        Program.run_pure]
    · obtain ⟨status, d₁, hexec, hbsy, hless, hstate⟩ := hD.status_busy d (Nat.pos_of_ne_zero hbusy)
      obtain ⟨d', hrun, hbusy', hstate'⟩ := ih (d := d₁) (by omega)
      refine ⟨d', ?_, hbusy', hstate'.trans hstate⟩
      rw [ataBusyWait, Program.run_bind_ok (run_inb hexec), if_pos hbsy, hrun]

theorem run_ataDrqWait (hD : D.Spec fuel) {n : ℕ} (hbusy : D.busy d = 0) (h : D.unready d < n) :
    ∃ d', (ataDrqWait n).run D.exec d = .ok ((), d') ∧ D.Settled d' ∧ D.state d' = D.state d := by
  induction n generalizing d with
  | zero => omega
  | succ n ih =>
    by_cases hunready : D.unready d = 0
    · obtain ⟨status, d', hexec, -, hrdy, hsettled, hstate⟩ := hD.status_settled d ⟨hbusy, hunready⟩
      refine ⟨d', ?_, hsettled, hstate⟩
      rw [ataDrqWait, Program.run_bind_ok (run_inb hexec), if_neg hrdy, Program.run_pure]
    · obtain ⟨status, d₁, hexec, -, hrdy, hbusy', hless, hstate⟩ :=
        hD.status_unready d hbusy (Nat.pos_of_ne_zero hunready)
      obtain ⟨d', hrun, hsettled, hstate'⟩ := ih (d := d₁) hbusy' (by omega)
      refine ⟨d', ?_, hsettled, hstate'.trans hstate⟩
      rw [ataDrqWait, Program.run_bind_ok (run_inb hexec), if_pos hrdy, hrun]

theorem run_awaitBlock (hD : D.Spec fuel) (d : δ) :
    ∃ d', (awaitBlock fuel).run D.exec d = .ok ((), d') ∧ D.Settled d' ∧ D.state d' = D.state d := by
  obtain ⟨d₁, hbusy, hclear, hstate⟩ := hD.run_ataBusyWait (hD.busy_lt d)
  obtain ⟨d', hready, hsettled, hstate'⟩ := hD.run_ataDrqWait hclear (hD.unready_lt d₁)
  exact ⟨d', (Program.run_bind_ok hbusy).trans hready, hsettled, hstate'.trans hstate⟩

theorem run_outbs (hD : D.Spec fuel) (l : List (UInt16 × UInt8))
    (hports : ∀ w ∈ l, 0x1F2 ≤ w.1 ∧ w.1 ≤ 0x1F6) (hbusy : D.busy d = 0)
    (hidle : (D.state d).phase = .idle) :
    ∃ d', (forM l fun w => outb w.1 w.2 : PortProg Unit).run D.exec d = .ok ((), d') ∧
      D.busy d' = 0 ∧ D.state d' = { D.state d with
        taskFile := l.foldl (fun t w => t.write w.1 w.2) (D.state d).taskFile } := by
  induction l generalizing d with
  | nil => exact ⟨d, rfl, hbusy, rfl⟩
  | cons w l ih =>
    obtain ⟨hlow, hhigh⟩ := hports w List.mem_cons_self
    obtain ⟨d₁, hexec, hbusy₁, hstate₁⟩ := hD.register d w.1 w.2 hbusy hidle hlow hhigh
    obtain ⟨d', hrun, hbusy', hstate'⟩ := ih (d := d₁)
      (fun w' hw' => hports w' (List.mem_cons_of_mem w hw')) hbusy₁ (by rw [hstate₁]; exact hidle)
    rw [hstate₁] at hstate'
    refine ⟨d', ?_, hbusy', hstate'⟩
    rw [List.forM_cons]
    exact (Program.run_bind_ok (run_outb hexec)).trans hrun

theorem run_sendCommand (hD : D.Spec fuel) (logicalBlockAddress : UInt32) (blockCount code : UInt8)
    (hidle : (D.state d).phase = .idle) (hcode : code = 0x20 ∨ code = 0x30)
    (hfit : ((D.state d).addressed logicalBlockAddress blockCount).taskFile.address +
      ((D.state d).addressed logicalBlockAddress blockCount).taskFile.blocksAsked ≤
        (D.state d).capacity) :
    ∃ d', (sendCommand fuel logicalBlockAddress blockCount code).run D.exec d = .ok ((), d') ∧
      D.state d' = ((D.state d).addressed logicalBlockAddress blockCount).command code := by
  let registers : List (UInt16 × UInt8) :=
    [(0x1F6, (0xE0 : UInt8) ||| (logicalBlockAddress >>> 24 &&& 0xF).toUInt8), (0x1F2, blockCount),
      (0x1F3, logicalBlockAddress.toUInt8), (0x1F4, (logicalBlockAddress >>> 8).toUInt8),
      (0x1F5, (logicalBlockAddress >>> 16).toUInt8)]
  have hprogram : sendCommand fuel logicalBlockAddress blockCount code = (do
      ataBusyWait fuel
      forM registers fun w => outb w.1 w.2
      outb 0x1F7 code : PortProg Unit) := rfl
  have hports : ∀ w ∈ registers, 0x1F2 ≤ w.1 ∧ w.1 ≤ 0x1F6 := by
    simp only [registers, List.forall_mem_cons]
    exact ⟨by decide, by decide, by decide, by decide, by decide, by simp⟩
  obtain ⟨d₁, hwait, hbusy₁, hstate₁⟩ := hD.run_ataBusyWait (hD.busy_lt d)
  obtain ⟨d₂, hset, hbusy₂, hstate₂⟩ := hD.run_outbs registers hports hbusy₁
    (by rw [hstate₁]; exact hidle)
  have haddressed : D.state d₂ = (D.state d).addressed logicalBlockAddress blockCount := by
    rw [hstate₂, hstate₁]
    rfl
  obtain ⟨d', hexec, hstate'⟩ := hD.command d₂ code hbusy₂ (by rw [haddressed]; exact hidle)
    (by rw [haddressed]; exact hfit) hcode
  refine ⟨d', ?_, by rw [hstate', haddressed]⟩
  rw [hprogram, Program.run_bind_ok hwait, Program.run_bind_ok hset, run_outb hexec]

/-- The words that are due are stored one behind the other. -/
theorem run_receiveWords_aux (hD : D.Spec fuel) (target : UInt32) (f : ℕ → UInt16) {js : List ℕ}
    (hjs : js ≠ []) (hsettled : D.Settled d)
    (hphase : (D.state d).phase = .sending lba remaining (js.map f)) (mem : Memory) :
    ∃ d', (js.foldlM (fun mem j => do
      let data ← inw 0x1F0
      pure (mem.setElement halfword target j data)) mem : PortProg Memory).run D.exec d =
        .ok (js.foldl (fun mem j => mem.setElement halfword target j (f j)) mem, d') ∧
      D.state d' = (D.state d).send (lba + 1) remaining := by
  induction js generalizing d mem with
  | nil => exact absurd rfl hjs
  | cons j js ih =>
    rw [List.map_cons] at hphase
    obtain ⟨d₁, hexec, hstate, hmore⟩ := hD.readData d lba remaining _ _ hsettled hphase
    rw [List.foldlM_cons, Program.run_bind_ok (Program.run_bind_ok (run_inw hexec))]
    cases js with
    | nil => exact ⟨d₁, rfl, hstate⟩
    | cons j' js =>
      rw [DriveState.sent, if_neg (by simp)] at hstate
      obtain ⟨d', hrun, hstate'⟩ := ih (List.cons_ne_nil j' js) (hmore (by simp))
        (by rw [hstate]) (mem.setElement halfword target j (f j))
      rw [hstate, DriveState.send_of_phase] at hstate'
      exact ⟨d', hrun, hstate'⟩

theorem run_receiveWords (hD : D.Spec fuel) (target : UInt32) (mem : Memory) (block : Block)
    (hsettled : D.Settled d) (hphase : (D.state d).phase = .sending lba remaining (wordsOf block)) :
    ∃ d', (receiveWords target mem).run D.exec d = .ok (mem.store target block, d') ∧
      D.state d' = (D.state d).send (lba + 1) remaining := by
  obtain ⟨d', hrun, hstate⟩ := hD.run_receiveWords_aux target
    (fun j => blockWords.symm block (Fin.ofNat 256 j)) (by simp : List.range 256 ≠ []) hsettled hphase mem
  refine ⟨d', ?_, hstate⟩
  rw [receiveWords, hrun, Memory.foldl_setElement mem halfword target _ (by decide) (by decide)]
  have hblock : (blockWords fun i => blockWords.symm block (Fin.ofNat 256 i.val)) = block := by simp
  exact congrArg (fun b => Except.ok (mem.store target b, d')) hblock

/-- The words that complete a block store it; stopped before, they have stored nothing. -/
theorem run_sendWords_aux (hD : D.Spec fuel) (g : ℕ → UInt16) {js : List ℕ} (hjs : js ≠ [])
    {words : List UInt16} (hsettled : D.Settled d)
    (hphase : (D.state d).phase = .receiving lba remaining words)
    (hlength : words.length + js.length = 256) :
    ∃ d', (forM js fun j => outw 0x1F0 (g j) : PortProg Unit).run D.exec d = .ok ((), d') ∧
      D.state d' =
        ((D.state d).storeBlock lba (words ++ js.map g)).receive (lba + 1) remaining ∧
      ∀ {t}, (forM js fun j => outw 0x1F0 (g j) : PortProg Unit).Reaches D.exec d t →
        (D.state t).image = (D.state d).image ∨
          (D.state t).image = ((D.state d).storeBlock lba (words ++ js.map g)).image := by
  induction js generalizing d words with
  | nil => exact absurd rfl hjs
  | cons j js ih =>
    obtain ⟨d₁, hexec, hstate, hmore⟩ := hD.writeData d lba remaining words (g j) hsettled hphase
    have hfirst : ∀ {t}, (outw 0x1F0 (g j)).Reaches D.exec d t → t = d ∨ t = d₁ := by
      intro t ht
      rcases (Program.reaches_perform (PortCall.outw 0x1F0 (g j))).mp ht with rfl | ⟨a, ha⟩
      · exact .inl rfl
      · exact .inr (Prod.mk.inj (Except.ok.inj (ha.symm.trans hexec))).2
    rw [List.forM_cons]
    cases js with
    | nil =>
      rw [DriveState.received, if_pos (by simpa using hlength)] at hstate
      have hdone : (D.state d₁).image = ((D.state d).storeBlock lba (words ++ [g j])).image := by
        rw [hstate, DriveState.receive_image]
      refine ⟨d₁, ?_, hstate, fun ht => ?_⟩
      · rw [Program.run_bind_ok (run_outw hexec)]
        rfl
      · rcases ht.of_bind (run_outw hexec) with h | h
        · rcases hfirst h with rfl | rfl
          · exact .inl rfl
          · exact .inr hdone
        · obtain rfl := h
          exact .inr hdone
    | cons j' js =>
      rw [List.length_cons, List.length_cons] at hlength
      rw [DriveState.received, if_neg (by rw [List.length_append, List.length_singleton]; omega)] at hstate
      obtain ⟨d', hrun, hstate', hreach⟩ := ih (d := d₁) (List.cons_ne_nil j' js)
        (hmore (by omega)) (by rw [hstate])
        (by rw [List.length_append, List.length_singleton, List.length_cons]; omega)
      have happend : words ++ [g j] ++ (j' :: js).map g = words ++ (j :: j' :: js).map g := by
        rw [List.append_assoc]
        rfl
      rw [hstate, happend] at hstate' hreach
      refine ⟨d', (Program.run_bind_ok (run_outw hexec)).trans hrun, ?_, fun ht => ?_⟩
      · exact hstate'.trans (DriveState.receive_of_phase (x := (D.state d).storeBlock lba _) _ _)
      · rcases ht.of_bind (run_outw hexec) with h | h
        · rcases hfirst h with rfl | rfl
          · exact .inl rfl
          · exact .inl (by rw [hstate])
        · exact hreach h

theorem run_sendWords (hD : D.Spec fuel) (ptr : UInt32) (i : ℕ) (mem : Memory)
    (hsettled : D.Settled d) (hphase : (D.state d).phase = .receiving lba remaining []) :
    ∃ d', (sendWords ptr i mem).run D.exec d = .ok ((), d') ∧
      D.state d' = ({ D.state d with
        image := Function.update (D.state d).image lba (mem.element (bytes 512) ptr i) } :
          DriveState).receive (lba + 1) remaining ∧
      ∀ {t}, (sendWords ptr i mem).Reaches D.exec d t →
        (D.state t).image = (D.state d).image ∨
          (D.state t).image = Function.update (D.state d).image lba (mem.element (bytes 512) ptr i) := by
  have h := hD.run_sendWords_aux (fun j => mem.element halfword ptr (256 * i + j))
    (by simp : List.range 256 ≠ []) hsettled hphase (by simp)
  rw [List.nil_append, DriveState.storeBlock, blockWords_element] at h
  exact h

end Spec

end Drive

end Os2024.Disk
