import LuatosPc.Base.Program

/-!
# Programs that follow a plan

A program over memory carries out a plan over something simpler: lists for blocks, the
files of an image for its bytes.  The plan is a computation with a state that cannot
fault.

* `Follows R V m p` — whenever the program `m` returns, started in a state that `R`
  relates to one of the plan `p`, it has done what the plan does: the states are related
  again, and the results by `V`.
* `Follows.pure`, `Follows.bind`, `Follows.ite` and the others — a program follows a plan
  part by part.
-/

namespace LuatosPc

/-- The program does what the plan does, if it returns. -/
structure Follows {ε σ τ α β : Type} (R : σ → τ → Prop) (V : α → β → Prop) (m : Prog ε σ α)
    (p : StateM τ β) : Prop where
  related : ∀ {s t a s'}, R s t → Yields m s a s' → V a (p t).1 ∧ R s' (p t).2

namespace Follows

variable {ε σ τ α β γ δ : Type} {R : σ → τ → Prop} {V : α → β → Prop} {U : γ → δ → Prop}

theorem pure {a : α} {b : β} (h : V a b) :
    Follows R V (pure a : Prog ε σ α) (pure b : StateM τ β) := by
  constructor
  intro s t a' s' hst hy
  cases hy
  exact ⟨h, hst⟩

theorem throw (e : ε) (p : StateM τ β) : Follows R V (throw e : Prog ε σ α) p := by
  constructor
  intro s t a s' hst hy
  cases hy

/-- One part after the other. -/
theorem bind {m : Prog ε σ α} {p : StateM τ β} {k : α → Prog ε σ γ} {g : β → StateM τ δ}
    (hm : Follows R V m p) (hk : ∀ a b, V a b → Follows R U (k a) (g b)) :
    Follows R U (m >>= k) (p >>= g) := by
  constructor
  intro s t c s' hst hy
  obtain ⟨a, s₁, hy₁, hy₂⟩ := hy.of_bind
  obtain ⟨hv, hst₁⟩ := hm.related hst hy₁
  exact (hk a _ hv).related hst₁ hy₂

/-- A part of the program that the plan has no part for. -/
theorem skip {m : Prog ε σ α} {k : α → Prog ε σ γ} {p : StateM τ δ} {Q : α → Prop}
    (hm : Follows R (fun a (_ : Unit) => Q a) m (Pure.pure ())) (hk : ∀ a, Q a → Follows R U (k a) p) :
    Follows R U (m >>= k) p := by
  constructor
  intro s t c s' hst hy
  obtain ⟨a, s₁, hy₁, hy₂⟩ := hy.of_bind
  obtain ⟨hv, hst₁⟩ := hm.related hst hy₁
  exact (hk a hv).related hst₁ hy₂

theorem get : Follows R R (get : Prog ε σ σ) (get : StateM τ τ) := by
  constructor
  intro s t a s' hst hy
  cases hy
  exact ⟨hst, hst⟩

theorem modify {f : σ → σ} {g : τ → τ} (h : ∀ s t, R s t → R (f s) (g t)) :
    Follows R (fun _ _ => True) (modify f : Prog ε σ Unit) (modify g : StateM τ Unit) := by
  constructor
  intro s t a s' hst hy
  cases hy
  exact ⟨trivial, h s t hst⟩

/-- A choice that program and plan make alike. -/
theorem ite {c d : Prop} [Decidable c] [Decidable d] {m n : Prog ε σ α} {p q : StateM τ β}
    (hcd : c ↔ d) (hm : Follows R V m p) (hn : Follows R V n q) :
    Follows R V (if c then m else n) (if d then p else q) := by
  by_cases hc : c
  · rw [if_pos hc, if_pos (hcd.1 hc)]
    exact hm
  · rw [if_neg hc, if_neg fun hd => hc (hcd.2 hd)]
    exact hn

end Follows

end LuatosPc
