import Mathlib.Tactic

/-! # Programs as trees of calls

A program returns, fails, or makes a call and continues with its answer. A handler
gives the calls a meaning on a state. Running a program to its end is one way to
use the tree; a scheduler that stops after every call is another.
-/

namespace Os2024.Library.CallTrees

/-- Calls of type `C`, each with its own type of answers. -/
inductive Program {C : Type} (A : C → Type) (ε α : Type) where
  | ret (a : α)
  | fail (e : ε)
  | call (c : C) (next : A c → Program A ε α)

namespace Program
variable {C : Type} {A : C → Type} {ε α β σ : Type}

def bind (p : Program A ε α) (f : α → Program A ε β) : Program A ε β :=
  match p with
  | ret a => f a
  | fail e => fail e
  | call c next => call c fun a => (next a).bind f

instance : Monad (Program A ε) where
  pure := ret
  bind := bind

theorem bind_assoc {γ : Type} (p : Program A ε α) (f : α → Program A ε β)
    (g : β → Program A ε γ) : p >>= f >>= g = p >>= fun a => f a >>= g := by
  change (p.bind f).bind g = p.bind fun a => (f a).bind g
  induction p with
  | ret a => rfl
  | fail e => rfl
  | call c next ih => exact congrArg (call c) (funext ih)

def perform (c : C) : Program A ε (A c) := call c ret

def ofExcept (x : Except ε α) : Program A ε α :=
  match x with
  | .ok a => ret a
  | .error e => fail e

def run (exec : (c : C) → σ → Except ε (A c × σ)) : Program A ε α → σ → Except ε (α × σ)
  | ret a, s => .ok (a, s)
  | fail e, _ => .error e
  | call c next, s =>
    match exec c s with
    | .error e => .error e
    | .ok (a, s) => (next a).run exec s

variable {exec : (c : C) → σ → Except ε (A c × σ)} {s s' : σ}

@[simp] theorem run_pure (a : α) : (pure a : Program A ε α).run exec s = .ok (a, s) := rfl

@[simp] theorem run_fail (e : ε) : (fail e : Program A ε α).run exec s = .error e := rfl

@[simp] theorem run_perform (c : C) : (perform c : Program A ε (A c)).run exec s = exec c s := by
  rw [perform, run]
  cases exec c s <;> rfl

@[simp] theorem run_ofExcept (x : Except ε α) :
    (ofExcept x : Program A ε α).run exec s = x.map fun a => (a, s) := by
  cases x <;> rfl

theorem run_bind (p : Program A ε α) (f : α → Program A ε β) (s : σ) :
    (p >>= f).run exec s = match p.run exec s with
      | .error e => .error e
      | .ok (a, s) => (f a).run exec s := by
  change (p.bind f).run exec s = _
  induction p generalizing s with
  | ret a => rfl
  | fail e => rfl
  | call c next ih =>
    rw [bind, run, run]
    cases exec c s with
    | error e => rfl
    | ok x => exact ih x.1 x.2

theorem run_bind_ok {p : Program A ε α} {f : α → Program A ε β} {a : α}
    (h : p.run exec s = .ok (a, s')) : (p >>= f).run exec s = (f a).run exec s' := by
  rw [run_bind, h]

theorem run_bind_congr {p q : Program A ε α} {f : α → Program A ε β}
    (h : p.run exec s = q.run exec s) : (p >>= f).run exec s = (q >>= f).run exec s := by
  rw [run_bind, run_bind, h]

theorem run_bind_error {p : Program A ε α} {f : α → Program A ε β} {e : ε}
    (h : p.run exec s = .error e) : (p >>= f).run exec s = .error e := by
  rw [run_bind, h]

theorem of_run_bind {p : Program A ε α} {f : α → Program A ε β} {r : β × σ}
    (h : (p >>= f).run exec s = .ok r) :
    ∃ a s', p.run exec s = .ok (a, s') ∧ (f a).run exec s' = .ok r := by
  rw [run_bind] at h
  cases hp : p.run exec s with
  | error e =>
    rw [hp] at h
    cases h
  | ok x =>
    rw [hp] at h
    exact ⟨x.1, x.2, rfl, h⟩

/-- Every call that the program can make is allowed. -/
def Uses (allowed : C → Prop) : Program A ε α → Prop
  | ret _ => True
  | fail _ => True
  | call c next => allowed c ∧ ∀ a, (next a).Uses allowed

variable {allowed : C → Prop}

theorem Uses.bind {p : Program A ε α} {f : α → Program A ε β} (hp : p.Uses allowed)
    (hf : ∀ a, (f a).Uses allowed) : (p >>= f).Uses allowed := by
  change (p.bind f).Uses allowed
  induction p with
  | ret a => exact hf a
  | fail e => trivial
  | call c next ih => exact ⟨hp.1, fun a => ih a (hp.2 a)⟩

theorem Uses.perform {c : C} (h : allowed c) : (perform c : Program A ε (A c)).Uses allowed :=
  ⟨h, fun _ => trivial⟩

theorem Uses.ofExcept (x : Except ε α) : (ofExcept x : Program A ε α).Uses allowed := by
  cases x <;> trivial

/-- What every allowed call leaves unchanged, a run leaves unchanged. -/
theorem Uses.run_eq {τ : Type} {f : σ → τ} {p : Program A ε α} {a : α} (hp : p.Uses allowed)
    (hcall : ∀ c, allowed c → ∀ s x s', exec c s = .ok (x, s') → f s' = f s)
    (h : p.run exec s = .ok (a, s')) : f s' = f s := by
  induction p generalizing s with
  | ret b =>
    obtain ⟨-, rfl⟩ := Prod.mk.inj (Except.ok.inj h)
    rfl
  | fail e => cases h
  | call c next ih =>
    rw [run] at h
    cases hc : exec c s with
    | error e =>
      rw [hc] at h
      cases h
    | ok x =>
      rw [hc] at h
      exact (ih x.1 (hp.2 x.1) h).trans (hcall c hp.1 s x.1 x.2 hc)

/-- Whatever the answers are, a value that the program returns is allowed. -/
def Returns (allowed : α → Prop) : Program A ε α → Prop
  | ret a => allowed a
  | fail _ => True
  | call _ next => ∀ a, (next a).Returns allowed

theorem Returns.any (p : Program A ε α) : p.Returns fun _ => True := by
  induction p with
  | ret a => trivial
  | fail e => trivial
  | call c next ih => exact ih

theorem Returns.bind {first : α → Prop} {allowed : β → Prop} {p : Program A ε α}
    {f : α → Program A ε β} (hp : p.Returns first) (hf : ∀ a, first a → (f a).Returns allowed) :
    (p >>= f).Returns allowed := by
  change (p.bind f).Returns allowed
  induction p with
  | ret a => exact hf a hp
  | fail e => trivial
  | call c next ih => exact fun a => ih a (hp a)

theorem Returns.of_run {allowed : α → Prop} {p : Program A ε α} {a : α} (hp : p.Returns allowed)
    (h : p.run exec s = .ok (a, s')) : allowed a := by
  induction p generalizing s with
  | ret b =>
    obtain ⟨rfl, -⟩ := Prod.mk.inj (Except.ok.inj h)
    exact hp
  | fail e => cases h
  | call c next ih =>
    rw [run] at h
    cases hc : exec c s with
    | error e =>
      rw [hc] at h
      cases h
    | ok x =>
      rw [hc] at h
      exact ih x.1 (hp x.1) h

end Program

end Os2024.Library.CallTrees
