import Os2024.Library.CutRuns

/-! # Programs in terms of programs

Every call of a program can be carried out by a program of its own, with calls of
another kind. When each of these programs does on its state what the call does on
an ideal one, the whole program does so too.
-/

namespace Os2024.Library.CallTrees.Program
variable {B C : Type} {A : C → Type} {A' : B → Type} {ε α β σ τ : Type}

/-- The program with a program in place of each of its calls. -/
def translate (f : (c : C) → Program A' ε (A c)) : Program A ε α → Program A' ε α
  | ret a => ret a
  | fail e => fail e
  | call c next => f c >>= fun a => (next a).translate f

variable {f : (c : C) → Program A' ε (A c)} {exec : (b : B) → σ → Except ε (A' b × σ)}
  {ideal : (c : C) → τ → Except ε (A c × τ)} {R : σ → τ → Prop}

/-- A run of the ideal calls is a run of the programs that stand for them. -/
theorem run_translate
    (hcall : ∀ c s t a t', R s t → ideal c t = .ok (a, t') →
      ∃ s', (f c).run exec s = .ok (a, s') ∧ R s' t')
    {p : Program A ε α} {s : σ} {t t' : τ} {a : α} (h : R s t) (hp : p.run ideal t = .ok (a, t')) :
    ∃ s', (p.translate f).run exec s = .ok (a, s') ∧ R s' t' := by
  induction p generalizing s t with
  | ret b =>
    obtain ⟨rfl, rfl⟩ := Prod.mk.inj (Except.ok.inj hp)
    exact ⟨s, rfl, h⟩
  | fail e => cases hp
  | call c next ih =>
    rw [run] at hp
    cases hc : ideal c t with
    | error e =>
      rw [hc] at hp
      cases hp
    | ok x =>
      rw [hc] at hp
      obtain ⟨s₁, hrun, h₁⟩ := hcall c s t x.1 x.2 h hc
      obtain ⟨s', hrest, h'⟩ := ih x.1 h₁ hp
      exact ⟨s', (run_bind_ok hrun).trans hrest, h'⟩

theorem Uses.translate {allowed : B → Prop} (hf : ∀ c, (f c).Uses allowed) (p : Program A ε α) :
    (p.translate f).Uses allowed := by
  induction p with
  | ret a => trivial
  | fail e => trivial
  | call c next ih => exact (hf c).bind ih

end Os2024.Library.CallTrees.Program
