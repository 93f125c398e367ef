import Os2024.Library.CallTrees

/-! # States that a program passes through

A run may be stopped after any of its calls. The states in which it can be stopped
are those the program reaches: the one it starts in, and one after every call that
has returned. A sequence reaches the states of its first part and then those of the
rest.
-/

namespace Os2024.Library.CallTrees.Program
variable {C : Type} {A : C → Type} {ε α β σ : Type}

/-- The run of the program from `s`, stopped after some number of its calls, is in state `t`. -/
def Reaches (exec : (c : C) → σ → Except ε (A c × σ)) : Program A ε α → σ → σ → Prop
  | ret _, s, t => t = s
  | fail _, s, t => t = s
  | call c next, s, t => t = s ∨ ∃ a s', exec c s = .ok (a, s') ∧ (next a).Reaches exec s' t

variable {exec : (c : C) → σ → Except ε (A c × σ)} {s s' t : σ}

@[simp] theorem reaches_pure (a : α) : (pure a : Program A ε α).Reaches exec s t ↔ t = s := Iff.rfl

@[simp] theorem reaches_fail (e : ε) : (fail e : Program A ε α).Reaches exec s t ↔ t = s := Iff.rfl

theorem reaches_perform (c : C) : (perform c : Program A ε (A c)).Reaches exec s t ↔
    t = s ∨ ∃ a, exec c s = .ok (a, t) := by
  simp only [perform, Reaches]
  constructor
  · rintro (h | ⟨a, s', hc, rfl⟩)
    · exact .inl h
    · exact .inr ⟨a, hc⟩
  · rintro (h | ⟨a, hc⟩)
    · exact .inl h
    · exact .inr ⟨a, t, hc, rfl⟩

theorem reaches_start (p : Program A ε α) (s : σ) : p.Reaches exec s s := by
  cases p with
  | ret a => rfl
  | fail e => rfl
  | call c next => exact .inl rfl

theorem reaches_bind {p : Program A ε α} {f : α → Program A ε β} :
    (p >>= f).Reaches exec s t ↔
      p.Reaches exec s t ∨ ∃ a s', p.run exec s = .ok (a, s') ∧ (f a).Reaches exec s' t := by
  change (p.bind f).Reaches exec s t ↔ _
  induction p generalizing s with
  | ret a =>
    constructor
    · intro h
      exact .inr ⟨a, s, rfl, h⟩
    · rintro (rfl | ⟨b, s', h, ht⟩)
      · exact reaches_start _ _
      · obtain ⟨rfl, rfl⟩ := Prod.mk.inj (Except.ok.inj h)
        exact ht
  | fail e =>
    constructor
    · exact .inl
    · rintro (h | ⟨_, _, h, -⟩)
      · exact h
      · cases h
  | call c next ih =>
    rw [bind, Reaches, Reaches, run]
    constructor
    · rintro (h | ⟨a, s', hc, h⟩)
      · exact .inl (.inl h)
      · rcases ih a |>.mp h with h | ⟨b, s'', hrun, h⟩
        · exact .inl (.inr ⟨a, s', hc, h⟩)
        · refine .inr ⟨b, s'', ?_, h⟩
          rw [hc]
          exact hrun
    · rintro ((h | ⟨a, s', hc, h⟩) | ⟨b, s'', hrun, h⟩)
      · exact .inl h
      · exact .inr ⟨a, s', hc, (ih a).mpr (.inl h)⟩
      · cases hc : exec c s with
        | error e =>
          rw [hc] at hrun
          cases hrun
        | ok x =>
          rw [hc] at hrun
          exact .inr ⟨x.1, x.2, rfl, (ih x.1).mpr (.inr ⟨b, s'', hrun, h⟩)⟩

/-- A sequence is stopped in its first part, or in the rest. -/
theorem Reaches.of_bind {p : Program A ε α} {f : α → Program A ε β} {a : α}
    (h : (p >>= f).Reaches exec s t) (hp : p.run exec s = .ok (a, s')) :
    p.Reaches exec s t ∨ (f a).Reaches exec s' t := by
  rcases reaches_bind.mp h with h | ⟨b, s'', hrun, h⟩
  · exact .inl h
  · obtain ⟨rfl, rfl⟩ := Prod.mk.inj (Except.ok.inj (hrun.symm.trans hp))
    exact .inr h

theorem Uses.mono {allowed allowed' : C → Prop} {p : Program A ε α} (h : p.Uses allowed)
    (hmono : ∀ c, allowed c → allowed' c) : p.Uses allowed' := by
  induction p with
  | ret a => trivial
  | fail e => trivial
  | call c next ih => exact ⟨hmono c h.1, fun a => ih a (h.2 a)⟩

/-- What every call that the program may make keeps holds wherever the run is stopped. -/
theorem Reaches.invariant {I : σ → Prop} {allowed : C → Prop} {p : Program A ε α}
    (h : p.Reaches exec s t) (hp : p.Uses allowed) (hs : I s)
    (hcall : ∀ c, allowed c → ∀ s a s', I s → exec c s = .ok (a, s') → I s') : I t := by
  induction p generalizing s with
  | ret a =>
    obtain rfl := h
    exact hs
  | fail e =>
    obtain rfl := h
    exact hs
  | call c next ih =>
    rcases h with rfl | ⟨a, s', hc, h⟩
    · exact hs
    · exact ih a h (hp.2 a) (hcall c hp.1 s a s' hs hc)

end Os2024.Library.CallTrees.Program
