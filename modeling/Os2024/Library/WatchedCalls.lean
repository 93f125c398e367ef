import Os2024.Library.CallTrees

/-! # Programs under watch

A watched program does what a program does, but it has one more way to stop, the
fault `none`: the watch has seen something it does not allow. A run that the watch
lets pass is the run of the program itself.
-/

namespace Os2024.Library.CallTrees.Program
variable {C : Type} {A : C → Type} {ε α β σ : Type}

/-- The program whose faults are those of a watched one. -/
def watch : Program A ε α → Program A (Option ε) α
  | ret a => ret a
  | fail e => fail (some e)
  | call c next => call c fun a => (next a).watch

def watchExec (exec : (c : C) → σ → Except ε (A c × σ)) (c : C) (s : σ) :
    Except (Option ε) (A c × σ) := (exec c s).mapError some

variable {exec : (c : C) → σ → Except ε (A c × σ)} {s s' : σ}

theorem run_watch (p : Program A ε α) (s : σ) :
    p.watch.run (watchExec exec) s = (p.run exec s).mapError some := by
  induction p generalizing s with
  | ret a => rfl
  | fail e => rfl
  | call c next ih =>
    rw [watch, run, run, watchExec]
    cases exec c s with
    | error e => rfl
    | ok x => exact ih x.1 x.2

variable (exec) in
/-- Unless the watch stops it, `p` runs like `q`. -/
def Watches (p : Program A (Option ε) α) (q : Program A ε α) : Prop :=
  ∀ s, p.run (watchExec exec) s = .error none ∨
    p.run (watchExec exec) s = (q.run exec s).mapError some

section Watches
variable {p : Program A (Option ε) α} {q : Program A ε α}
  {f : α → Program A (Option ε) β} {g : α → Program A ε β}

theorem Watches.watch (q : Program A ε α) : Watches exec q.watch q := fun s => .inr (run_watch q s)

theorem Watches.pure (a : α) : Watches exec (pure a) (pure a) := fun _ => .inr rfl

theorem Watches.fail (e : ε) :
    Watches exec (.fail (some e)) (.fail e : Program A ε α) := fun _ => .inr rfl

theorem Watches.ofExcept {x : Except (Option ε) α} {y : Except ε α}
    (h : x = .error none ∨ x = y.mapError some) : Watches exec (.ofExcept x) (.ofExcept y) := by
  intro s
  rw [run_ofExcept, run_ofExcept]
  rcases h with rfl | rfl
  · exact .inl rfl
  · cases y with
    | error e => exact .inr rfl
    | ok a => exact .inr rfl

theorem Watches.bind (hp : Watches exec p q) (hf : ∀ a, Watches exec (f a) (g a)) :
    Watches exec (p >>= f) (q >>= g) := by
  intro s
  rw [run_bind, run_bind]
  rcases hp s with h | h
  · rw [h]
    exact .inl rfl
  · rw [h]
    cases q.run exec s with
    | error e => exact .inr rfl
    | ok x => exact hf x.1 x.2

theorem Watches.ite {c : Prop} [Decidable c] {p' : Program A (Option ε) α} {q' : Program A ε α}
    (hp : Watches exec p q) (hp' : Watches exec p' q') :
    Watches exec (if c then p else p') (if c then q else q') := by
  split_ifs
  · exact hp
  · exact hp'

end Watches

variable (exec) in
/-- The watch lets the run pass, and what it returns meets `Q`. -/
def Passes (p : Program A (Option ε) α) (Q : α → σ → Prop) (s : σ) : Prop :=
  match p.run (watchExec exec) s with
  | .error e => e ≠ none
  | .ok (a, s') => Q a s'

section Passes
variable {p : Program A (Option ε) α} {f : α → Program A (Option ε) β} {Q Q' : α → σ → Prop}
  {R : β → σ → Prop}

theorem Passes.pure {a : α} (h : Q a s) : Passes exec (pure a) Q s := h

theorem Passes.fail (e : ε) : Passes exec (.fail (some e) : Program A (Option ε) α) Q s := nofun

theorem Passes.bind (hp : Passes exec p Q s) (hf : ∀ a s', Q a s' → Passes exec (f a) R s') :
    Passes exec (p >>= f) R s := by
  rw [Passes] at hp ⊢
  rw [run_bind]
  cases hrun : p.run (watchExec exec) s with
  | error e =>
    rw [hrun] at hp
    exact hp
  | ok x =>
    rw [hrun] at hp
    exact hf x.1 x.2 hp

theorem Passes.mono (hp : Passes exec p Q s) (h : ∀ a s', Q a s' → Q' a s') :
    Passes exec p Q' s := by
  rw [Passes] at hp ⊢
  cases hrun : p.run (watchExec exec) s with
  | error e =>
    rw [hrun] at hp
    exact hp
  | ok x =>
    rw [hrun] at hp
    exact h x.1 x.2 hp

theorem Passes.not_stopped (hp : Passes exec p Q s) : p.run (watchExec exec) s ≠ .error none := by
  intro hrun
  rw [Passes, hrun] at hp
  exact hp rfl

theorem Passes.watch {q : Program A ε α} (h : ∀ a s', q.run exec s = .ok (a, s') → Q a s') :
    Passes exec q.watch Q s := by
  rw [Passes, run_watch]
  cases hrun : q.run exec s with
  | error e => exact nofun
  | ok x => exact h x.1 x.2 hrun

theorem Watches.of_passes {q : Program A ε α} {a : α} (hw : Watches exec p q) (hp : Passes exec p Q s)
    (h : q.run exec s = .ok (a, s')) : Q a s' := by
  rw [Passes] at hp
  rcases hw s with hrun | hrun
  · rw [hrun] at hp
    exact absurd rfl hp
  · rw [hrun, h] at hp
    exact hp

end Passes

end Os2024.Library.CallTrees.Program
