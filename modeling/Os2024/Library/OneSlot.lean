import Os2024.Library.StepwiseRuns

/-! # A place for one thing

Some events put a thing into the place and some take it out; all others are to keep
what is there. As long as every event does what it is to do, a thing is there until
it is taken or replaced, and nothing is there that has not been put.
-/

namespace Os2024.Library.OneSlot
open StepwiseRuns

/-- What an event is to do with the content of the place. -/
inductive Effect (α : Type*) where
  | put (x : α)
  | take
  | keep

variable {σ ℓ α : Type*}

def Effect.apply : Effect α → Option α → Option α
  | .put x, _ => some x
  | .take, _ => none
  | .keep, content => content

def Obeys (step : σ → ℓ → σ) (effect : σ → ℓ → Effect α) (content : σ → Option α) (s : σ) (a : ℓ) :
    Prop := content (step s a) = (effect s a).apply (content s)

def Keeps (effect : σ → ℓ → Effect α) (s : σ) (a : ℓ) : Prop := effect s a = .keep

variable {step : σ → ℓ → σ} {effect : σ → ℓ → Effect α} {content : σ → Option α} {s : σ}
  {l : List ℓ} {x : α}

theorem content_of_keeps (h : Along step (Obeys step effect content) l s)
    (hkeep : Along step (Keeps effect) l s) : content (l.foldl step s) = content s := by
  induction l generalizing s with
  | nil => rfl
  | cons a l ih =>
    obtain ⟨ha, hl⟩ := h
    obtain ⟨hka, hkl⟩ := hkeep
    rw [Obeys, hka] at ha
    exact (ih hl hkl).trans ha

/-- What has been put stays while the events are to keep it. -/
theorem content_of_put {a : ℓ} (h : Along step (Obeys step effect content) (a :: l) s)
    (hput : effect s a = .put x) (hkeep : Along step (Keeps effect) l (step s a)) :
    content ((a :: l).foldl step s) = some x := by
  obtain ⟨ha, hl⟩ := h
  rw [Obeys, hput] at ha
  exact (content_of_keeps hl hkeep).trans ha

/-- What is there has been put, and nothing has been taken or put since. -/
theorem content_origin (h : Along step (Obeys step effect content) l s) (hs : content s = none)
    (hx : content (l.foldl step s) = some x) : ∃ before a mid, l = before ++ a :: mid ∧
      effect (before.foldl step s) a = .put x ∧
      Along step (Keeps effect) mid (step (before.foldl step s) a) := by
  induction l using List.reverseRecOn with
  | nil =>
    rw [List.foldl_nil, hs] at hx
    cases hx
  | append_singleton l a ih =>
    obtain ⟨hl, ha, -⟩ := along_append.mp h
    rw [List.foldl_append, List.foldl_cons, List.foldl_nil, ha] at hx
    cases heffect : effect (l.foldl step s) a with
    | put y =>
      rw [heffect] at hx
      obtain rfl := Option.some.inj hx
      exact ⟨l, a, [], rfl, heffect, along_nil⟩
    | take =>
      rw [heffect] at hx
      cases hx
    | keep =>
      rw [heffect] at hx
      obtain ⟨before, b, mid, rfl, hput, hmid⟩ := ih hl hx
      refine ⟨before, b, mid ++ [a], by simp, hput, along_append.mpr ⟨hmid, ?_⟩⟩
      rw [List.foldl_append, List.foldl_cons] at heffect
      exact ⟨heffect, along_nil⟩

end Os2024.Library.OneSlot
