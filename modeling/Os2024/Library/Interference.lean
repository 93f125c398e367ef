import Os2024.Library.CallTrees

/-! # Programs among others

Between two calls of a program others may act, within what the program relies on.
A program ensures a condition on its result when this holds however its calls are
answered and whatever the others do. The rules take programs apart in the same way
as without others; what a program only touches within its reliance, it may touch at
will.
-/

namespace Os2024.Library.CallTrees.Program
variable {C : Type} {A : C → Type} {ε α β σ : Type}

/-- Whatever the answers of `step` are and whatever others do within `rely`, the program is in
`safe` states wherever it stands, and in one with `post` where it returns. -/
def Ensures (rely : σ → σ → Prop) (step : (c : C) → σ → A c → σ → Prop) (safe : σ → Prop)
    (post : α → σ → Prop) : Program A ε α → σ → Prop
  | ret a, s => ∀ t, rely s t → safe t ∧ post a t
  | fail _, s => ∀ t, rely s t → safe t
  | call c next, s => ∀ t, rely s t → safe t ∧ ∀ a u, step c t a u →
      (next a).Ensures rely step safe post u

variable {rely : σ → σ → Prop} {step : (c : C) → σ → A c → σ → Prop} {safe : σ → Prop}
  {post : α → σ → Prop} {s t : σ}

theorem Ensures.of_rely (htrans : ∀ s t u, rely s t → rely t u → rely s u) {p : Program A ε α}
    (h : p.Ensures rely step safe post s) (ht : rely s t) : p.Ensures rely step safe post t := by
  cases p with
  | ret a => exact fun u hu => h u (htrans _ _ _ ht hu)
  | fail e => exact fun u hu => h u (htrans _ _ _ ht hu)
  | call c next => exact fun u hu => h u (htrans _ _ _ ht hu)

theorem Ensures.isSafe (hrefl : ∀ s, rely s s) {p : Program A ε α}
    (h : p.Ensures rely step safe post s) : safe s := by
  cases p with
  | ret a => exact (h s (hrefl s)).1
  | fail e => exact h s (hrefl s)
  | call c next => exact (h s (hrefl s)).1

theorem Ensures.mono {post' : α → σ → Prop} {p : Program A ε α}
    (h : p.Ensures rely step safe post s) (hpost : ∀ a t, post a t → post' a t) :
    p.Ensures rely step safe post' s := by
  induction p generalizing s with
  | ret a => exact fun t ht => ⟨(h t ht).1, hpost a t (h t ht).2⟩
  | fail e => exact h
  | call c next ih => exact fun t ht => ⟨(h t ht).1, fun a u hu => ih a ((h t ht).2 a u hu)⟩

theorem Ensures.bind (hrefl : ∀ s, rely s s) {p : Program A ε β} {f : β → Program A ε α}
    (h : p.Ensures rely step safe (fun b s => (f b).Ensures rely step safe post s) s) :
    (p >>= f).Ensures rely step safe post s := by
  change (p.bind f).Ensures rely step safe post s
  induction p generalizing s with
  | ret b => exact (h s (hrefl s)).2
  | fail e => exact h
  | call c next ih => exact fun t ht => ⟨(h t ht).1, fun a u hu => ih a ((h t ht).2 a u hu)⟩

theorem Ensures.seq (hrefl : ∀ s, rely s s) {mid : β → σ → Prop} {p : Program A ε β}
    {f : β → Program A ε α} (h : p.Ensures rely step safe mid s)
    (hrest : ∀ b t, mid b t → (f b).Ensures rely step safe post t) :
    (p >>= f).Ensures rely step safe post s := .bind hrefl (h.mono hrest)

theorem Ensures.perform {c : C} {f : A c → Program A ε α} (hsafe : ∀ t, rely s t → safe t)
    (h : ∀ t, rely s t → ∀ a u, step c t a u → (f a).Ensures rely step safe post u) :
    (perform c >>= f).Ensures rely step safe post s :=
  fun t ht => ⟨hsafe t ht, fun a u hu => h t ht a u hu⟩

theorem Ensures.pure {a : α} (h : ∀ t, rely s t → safe t ∧ post a t) :
    (pure a : Program A ε α).Ensures rely step safe post s := h

/-- A program whose calls do no more than the others may do. -/
theorem Ensures.of_uses {allowed : C → Prop} {p : Program A ε α} (hp : p.Uses allowed)
    (hcall : ∀ c, allowed c → ∀ s a u, step c s a u → rely s u)
    (htrans : ∀ s t u, rely s t → rely t u → rely s u)
    (h : ∀ t, rely s t → safe t ∧ ∀ a, post a t) : p.Ensures rely step safe post s := by
  induction p generalizing s with
  | ret a => exact fun t ht => ⟨(h t ht).1, (h t ht).2 a⟩
  | fail e => exact fun t ht => (h t ht).1
  | call c next ih =>
    refine fun t ht => ⟨(h t ht).1, fun a u hu => ih a (hp.2 a) fun v hv => h v ?_⟩
    exact htrans _ _ _ ht (htrans _ _ _ (hcall c hp.1 t a u hu) hv)

end Os2024.Library.CallTrees.Program
