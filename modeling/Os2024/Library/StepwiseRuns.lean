import Mathlib.Tactic
import Mathlib.Data.List.Basic

/-! # Runs of a step function, one event after the other

A condition on a run asks something of every step, in the state in which the step
is taken. When each step keeps an invariant exactly under some condition, a whole
run keeps it exactly when all of its steps meet that condition.
-/

namespace Os2024.Library.StepwiseRuns

variable {σ ℓ : Type*}

/-- Every step of the run meets `Q` in the state before it. -/
def Along (step : σ → ℓ → σ) (Q : σ → ℓ → Prop) : List ℓ → σ → Prop
  | [], _ => True
  | a :: l, s => Q s a ∧ Along step Q l (step s a)

variable {step : σ → ℓ → σ} {Q C : σ → ℓ → Prop} {I P : σ → Prop} {l : List ℓ} {s : σ}

@[simp] theorem along_nil : Along step Q [] s := trivial

@[simp] theorem along_cons {a : ℓ} :
    Along step Q (a :: l) s ↔ Q s a ∧ Along step Q l (step s a) := Iff.rfl

theorem along_append {l' : List ℓ} :
    Along step Q (l ++ l') s ↔ Along step Q l s ∧ Along step Q l' (l.foldl step s) := by
  induction l generalizing s with
  | nil => simp
  | cons a l ih => simp [ih, and_assoc]

/-- The steps of a run are the places at which its list can be split. -/
theorem along_iff_forall_split : Along step Q l s ↔
    ∀ before a after, l = before ++ a :: after → Q (before.foldl step s) a := by
  induction l generalizing s with
  | nil => simp
  | cons b l ih =>
    rw [along_cons, ih]
    constructor
    · rintro ⟨hb, hl⟩ before a after heq
      cases before with
      | nil =>
        obtain ⟨rfl, -⟩ := List.cons_eq_cons.mp heq
        exact hb
      | cons c before =>
        obtain ⟨rfl, hrest⟩ := List.cons_eq_cons.mp heq
        exact hl before a after hrest
    · intro h
      constructor
      · exact h [] b l rfl
      · intro before a after heq
        exact h (b :: before) a after (congrArg (b :: ·) heq)

instance decidableAlong [∀ s a, Decidable (Q s a)] :
    (l : List ℓ) → (s : σ) → Decidable (Along step Q l s)
  | [], _ => isTrue trivial
  | a :: l, s =>
    have := decidableAlong l (step s a)
    inferInstanceAs (Decidable (Q s a ∧ Along step Q l (step s a)))

/-- Under an invariant two properties of a step that are equivalent there are so along a run. -/
theorem along_iff (hs : I s) (hiff : ∀ s a, I s → (Q s a ↔ C s a))
    (hkeep : ∀ s a, I s → C s a → I (step s a)) : Along step Q l s ↔ Along step C l s := by
  induction l generalizing s with
  | nil => simp
  | cons a l ih =>
    rw [along_cons, along_cons, hiff s a hs]
    exact and_congr_right fun hC => ih (hkeep s a hs hC)

theorem Along.invariant (h : Along step C l s) (hs : I s)
    (hkeep : ∀ s a, I s → C s a → I (step s a)) : I (l.foldl step s) := by
  induction l generalizing s with
  | nil => exact hs
  | cons a l ih => exact ih h.2 (hkeep s a hs h.1)

theorem Along.forall_prefix (h : Along step C l s) (hs : I s)
    (hkeep : ∀ s a, I s → C s a → I (step s a)) {l' : List ℓ} (hl' : l' <+: l) :
    I (l'.foldl step s) := by
  obtain ⟨rest, rfl⟩ := hl'
  exact (along_append.mp h).1.invariant hs hkeep

theorem Along.imp (h : Along step C l s) (hs : I s) (himp : ∀ s a, I s → C s a → Q s a)
    (hkeep : ∀ s a, I s → C s a → I (step s a)) : Along step Q l s := by
  induction l generalizing s with
  | nil => exact along_nil
  | cons a l ih => exact ⟨himp s a hs h.1, ih h.2 (hkeep s a hs h.1)⟩

/-- A property holds in every state of a run when it does at its start and after each step. -/
theorem forall_prefix_iff : (∀ l', l' <+: l → P (l'.foldl step s)) ↔
    P s ∧ Along step (fun s a => P (step s a)) l s := by
  induction l generalizing s with
  | nil =>
    constructor
    · intro h
      exact ⟨h [] (List.prefix_refl []), along_nil⟩
    · rintro ⟨hs, -⟩ l' hl'
      rw [List.prefix_nil.mp hl']
      exact hs
  | cons a l ih =>
    rw [along_cons]
    constructor
    · intro h
      have htail := ih.mp fun l' hl' => h (a :: l') ((List.prefix_cons_inj a).mpr hl')
      exact ⟨h [] List.nil_prefix, htail⟩
    · rintro ⟨hs, htail⟩ l' hl'
      cases l' with
      | nil => exact hs
      | cons b l' =>
        obtain ⟨rfl, hrest⟩ := List.cons_prefix_cons.mp hl'
        exact ih.mpr htail l' hrest

/-- Where `I` always holds, the whole run keeps the property exactly when every step meets the
condition. -/
theorem forall_prefix_iff_along (hI : I s) (hkeep : ∀ s a, I s → I (step s a)) (hs : P s)
    (hstep : ∀ s a, I s → P s → (P (step s a) ↔ C s a)) :
    (∀ l', l' <+: l → P (l'.foldl step s)) ↔ Along step C l s := by
  have hboth : ∀ s a, I s ∧ P s → (P (step s a) ↔ C s a) := fun s a h => hstep s a h.1 h.2
  rw [forall_prefix_iff, and_iff_right hs]
  exact along_iff (I := fun s => I s ∧ P s) ⟨hI, hs⟩ hboth fun s a h hC =>
    ⟨hkeep s a h.1, (hboth s a h).mpr hC⟩

end Os2024.Library.StepwiseRuns
