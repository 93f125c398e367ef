import Mathlib.Tactic
import Mathlib.Logic.Relation

/-! # Runs of a labelled step relation

A run is a finite sequence of labelled steps. An invariant kept by every step
holds at the end of every run, also when the steps are only known to be taken
from states that already satisfy it. A trace is a run together with its labels;
what a step makes of some part of the state, a trace makes of it label by label.
-/

namespace Os2024.Library.Runs
open Relation

variable {σ ℓ : Type*}

/-- `Run step s t` holds when finitely many steps with some labels lead from `s` to `t`. -/
def Run (step : σ → ℓ → σ → Prop) : σ → σ → Prop := ReflTransGen (fun s t => ∃ a, step s a t)

variable {step : σ → ℓ → σ → Prop} {s t u : σ}

theorem Run.refl (s : σ) : Run step s s := ReflTransGen.refl

theorem Run.tail {a : ℓ} (h : Run step s t) (ht : step t a u) : Run step s u :=
  ReflTransGen.tail h ⟨a, ht⟩

/-- The run lemma: what every step keeps, every run keeps. -/
theorem Run.invariant {I : σ → Prop} (h : Run step s t) (hs : I s)
    (hstep : ∀ s a t, I s → step s a t → I t) : I t := by
  induction h with
  | refl => exact hs
  | tail _ hst ih =>
    obtain ⟨a, ha⟩ := hst
    exact hstep _ a _ ih ha

theorem Run.mono {step' : σ → ℓ → σ → Prop} (h : Run step s t)
    (hstep : ∀ s a t, step s a t → step' s a t) : Run step' s t :=
  h.invariant (Run.refl s) fun _ a _ hrun ha => hrun.tail (hstep _ a _ ha)

/-- The steps of a run, with their labels in order. -/
inductive Trace (step : σ → ℓ → σ → Prop) : σ → List ℓ → σ → Prop
  | nil (s : σ) : Trace step s [] s
  | cons {s t u : σ} {a : ℓ} {l : List ℓ} (head : step s a t) (tail : Trace step t l u) :
      Trace step s (a :: l) u

theorem Trace.mono {step' : σ → ℓ → σ → Prop} {l : List ℓ} (h : Trace step s l t)
    (hstep : ∀ s a t, step s a t → step' s a t) : Trace step' s l t := by
  induction h with
  | nil => exact .nil _
  | cons head _ ih => exact .cons (hstep _ _ _ head) ih

theorem Trace.append {l l' : List ℓ} (h : Trace step s l t) (h' : Trace step t l' u) :
    Trace step s (l ++ l') u := by
  induction h with
  | nil => exact h'
  | cons head _ ih => exact .cons head (ih h')

theorem Trace.run {l : List ℓ} (h : Trace step s l t) : Run step s t := by
  induction h with
  | nil => exact .refl _
  | cons head _ ih => exact ReflTransGen.head ⟨_, head⟩ ih

/-- When each step changes the part `f` as `g` says, a trace folds `g` over its labels. -/
theorem Trace.foldl {γ : Type*} {I : σ → Prop} {f : σ → γ → Prop} {g : γ → ℓ → γ} {l : List ℓ}
    (h : Trace step s l t)
    (hstep : ∀ s a t, I s → step s a t → I t ∧ ∀ c, f s c → f t (g c a)) (hs : I s) {c : γ}
    (hc : f s c) : I t ∧ f t (l.foldl g c) := by
  induction h generalizing c with
  | nil => exact ⟨hs, hc⟩
  | cons head _ ih =>
    obtain ⟨ht, hpart⟩ := hstep _ _ _ hs head
    exact ih ht (hpart c hc)

end Os2024.Library.Runs
