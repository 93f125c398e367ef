import Os2024.Interrupts.Controller

/-! # Two 8259A chips

The chips with their requests, the second one wired to input 2 of the first. A chip
latches a request until the processor takes it or the device lets go of its line, and
holds back requests of the same or a lower priority as long as an interrupt is in
service. They are a controller as the kernel needs one.
-/

namespace Os2024.Interrupts

structure Chip where
  registers : Pic
  requested : Fin 8 → Bool

namespace Chip

def writeCommand (data : UInt8) (x : Chip) : Chip where
  registers := x.registers.writeCommand data
  requested := if data = icw1Init ||| icw1Icw4 then fun _ => false else x.requested

def writeData (data : UInt8) (x : Chip) : Chip := { x with registers := x.registers.writeData data }

def setLine (n : Fin 8) (level : Bool) (x : Chip) : Chip :=
  { x with requested := Function.update x.requested n level }

/-- The request that the chip passes on: the first one that is not masked, unless a line of the
same or a higher priority is in service. -/
def pending (x : Chip) : Option (Fin 8) :=
  if x.registers.init = .ready ∧ x.registers.mode = icw4Mode8086 then
    (firstLine fun n => x.requested n && !x.registers.masked n).filter
      fun n => decide (∀ m ≤ n, x.registers.inService m = false)
  else none

def acknowledge (n : Fin 8) (x : Chip) : Chip where
  registers := x.registers.serve n
  requested := Function.update x.requested n false

end Chip

structure Chips where
  master : Chip
  slave : Chip

namespace Chips

def setLine (line : Fin 16) (level : Bool) (x : Chips) : Chips :=
  if h : line.val < 8 then { x with master := x.master.setLine ⟨line.val, h⟩ level }
  else { x with slave := x.slave.setLine ⟨line.val - 8, by omega⟩ level }

/-- The first chip with the request of the second one at its input. -/
def linked (x : Chips) : Chip := x.master.setLine 2 x.slave.pending.isSome

def accept (x : Chips) : Option (UInt8 × Chips) :=
  match x.linked.pending with
  | none => none
  | some n =>
    if n = 2 then
      match x.slave.pending with
      | none => none
      | some m => some (x.slave.registers.offset + UInt8.ofNat m,
          ⟨x.linked.acknowledge n, x.slave.acknowledge m⟩)
    else some (x.master.registers.offset + UInt8.ofNat n, ⟨x.master.acknowledge n, x.slave⟩)

def after (c : PortCall) (x : Chips) : Chips :=
  match c with
  | .outb port data =>
    if port = pic1Command then { x with master := x.master.writeCommand data }
    else if port = pic1Data then { x with master := x.master.writeData data }
    else if port = pic2Command then { x with slave := x.slave.writeCommand data }
    else if port = pic2Data then { x with slave := x.slave.writeData data }
    else x
  | _ => x

/-- The data ports answer with the masks; what other devices answer is left open. -/
def Answers (x : Chips) : (c : PortCall) → c.Answer → Prop
  | .inb port, a =>
    (port = pic1Data → a = x.master.registers.mask) ∧ (port = pic2Data → a = x.slave.registers.mask)
  | .outb _ _, _ => True
  | .inw _, _ => True
  | .outw _ _, _ => True

/-- A request that goes away at the last moment reads as one of line 7. -/
def controller : Controller Chips where
  registers x := x.master.registers
  requested x := x.master.requested
  raise line x x' := x' = x.setLine line true
  withdraw line x x' := x' = x.setLine line false
  access c x a x' := x.Answers c a ∧ x' = x.after c
  accept x vector x' := x.accept = some (vector, x') ∨
    vector = x.master.registers.offset + 7 ∧ x' = x

section Spec
variable {x x' : Chips} {n : Fin 8}

theorem registers_setLine (line : Fin 16) (level : Bool) (x : Chips) :
    (x.setLine line level).master.registers = x.master.registers := by
  rw [setLine]
  split_ifs <;> rfl

theorem requested_setLine (line : Fin 16) (level : Bool) (x : Chips) (n : Fin 8) :
    (x.setLine line level).master.requested n =
      if n.val = line.val then level else x.master.requested n := by
  rw [setLine]
  split_ifs with hline hn hn
  · obtain rfl : n = ⟨line.val, hline⟩ := Fin.ext hn
    exact Function.update_self ..
  · exact Function.update_of_ne (fun h => hn (congrArg Fin.val h)) _ _
  · omega
  · rfl

/-- The first chip with nothing in service passes on the first open request. -/
theorem pending_of_quiet (h : x.master.registers.Quiet) :
    x.linked.pending = firstLine fun n => x.linked.requested n && !x.master.registers.masked n := by
  have hidle : ∀ n, x.linked.registers.inService n = false := h.idle
  have hready : x.linked.registers.init = .ready ∧ x.linked.registers.mode = icw4Mode8086 :=
    ⟨h.ready, h.mode⟩
  rw [Chip.pending, if_pos hready]
  simp only [hidle, implies_true, decide_true]
  change Option.filter _ (firstLine fun n => x.linked.requested n && !x.master.registers.masked n) = _
  cases firstLine fun n => x.linked.requested n && !x.master.registers.masked n <;> rfl

theorem accept_of_quiet (h : x.master.registers.Quiet) (hn : x.linked.pending = some n) :
    x.accept = some (x.master.registers.offset + UInt8.ofNat n, ⟨x.master.acknowledge n, x.slave⟩) ∧
      controller.Takes n x ⟨x.master.acknowledge n, x.slave⟩ := by
  have hline := firstLine_eq_some ((pending_of_quiet h).symm.trans hn)
  have hopen : x.master.registers.masked n = false := by
    rw [Bool.and_eq_true_iff, Bool.not_eq_true'] at hline
    exact hline.2
  have hne : n ≠ 2 := by
    rintro rfl
    rw [h.cascade] at hopen
    cases hopen
  rw [accept, hn]
  refine ⟨if_neg hne, hopen, rfl, fun m hm hrequest => ?_⟩
  exact (Function.update_of_ne hm _ _).trans hrequest

theorem registers_after (c : PortCall) (x : Chips) :
    (x.after c).master.registers = x.master.registers.after c := by
  cases c with
  | outb port data =>
    rw [after, Pic.after]
    split_ifs <;> rfl
  | _ => rfl

theorem requested_after {c : PortCall} (hc : c ≠ .outb pic1Command (icw1Init ||| icw1Icw4))
    (x : Chips) : (x.after c).master.requested = x.master.requested := by
  cases c with
  | outb port data =>
    rw [after]
    split_ifs with hcommand
    · have hdata : data ≠ icw1Init ||| icw1Icw4 := by
        rintro rfl
        exact hc (congrArg (PortCall.outb · _) hcommand)
      exact if_neg hdata
    · rfl
    · rfl
    · rfl
    · rfl
  | _ => rfl

theorem controller_spec : controller.Spec where
  registers_raise := by
    rintro line x _ rfl
    exact registers_setLine line true x
  registers_withdraw := by
    rintro line x _ rfl
    exact registers_setLine line false x
  keeps_raise := by
    rintro line x _ rfl n - hrequest
    refine (requested_setLine line true x n).trans ?_
    split_ifs
    · rfl
    · exact hrequest
  keeps_withdraw := by
    rintro line x _ rfl n hn hrequest
    exact (requested_setLine line false x n).trans ((if_neg hn).trans hrequest)
  exists_raise n x := ⟨_, rfl, (requested_setLine _ true x n).trans (if_pos rfl)⟩
  registers_access := by
    rintro c x a _ - ⟨-, rfl⟩
    exact registers_after c x
  mask_access := by
    rintro x x' mask ⟨hmask, -⟩
    exact hmask.1 rfl
  keeps_access := by
    rintro c x a _ - hc ⟨-, rfl⟩ n - hrequest
    exact (congrFun (requested_after hc x) n).trans hrequest
  accept_cases := by
    rintro x vector x' hquiet (haccept | ⟨rfl, rfl⟩)
    · cases hpending : x.linked.pending with
      | none =>
        rw [accept, hpending] at haccept
        cases haccept
      | some n =>
        obtain ⟨heq, htakes⟩ := accept_of_quiet hquiet hpending
        obtain ⟨rfl, rfl⟩ := Prod.mk.inj (Option.some.inj (heq.symm.trans haccept))
        exact .inl ⟨n, rfl, htakes⟩
    · exact .inr ⟨rfl, rfl, fun _ _ h => h⟩
  exists_accept := by
    intro x n hquiet hopen hrequest
    have hne : n ≠ 2 := by
      rintro rfl
      have hcascade : (controller.registers x).masked 2 = true := hquiet.cascade
      rw [hcascade] at hopen
      cases hopen
    cases hpending : x.linked.pending with
    | none =>
      have hnone := firstLine_eq_none.mp ((pending_of_quiet hquiet).symm.trans hpending) n
      have hlinked : x.linked.requested n = true := (Function.update_of_ne hne _ _).trans hrequest
      have hmasked : x.master.registers.masked n = false := hopen
      rw [hlinked, hmasked] at hnone
      cases hnone
    | some m =>
      obtain ⟨heq, htakes⟩ := accept_of_quiet hquiet hpending
      exact ⟨m, _, .inl heq, htakes⟩

end Spec

end Chips

end Os2024.Interrupts
