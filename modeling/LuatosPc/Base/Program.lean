import Mathlib

/-!
# Programs with a state that may fault

A C function that works on memory and stops the process when it leaves it is a
function of the state with three outcomes: a value and a new state, or a fault.
Written in `do` notation such a program reads like its source.

* `Prog` — the programs; `Yields m s a s'` — from state `s` the program returns
  `a` and leaves `s'`.
* `Yields.pure`, `Yields.bind`, `Yields.bind_eq` — how results compose;
  `Yields.of_bind` — and how they come apart.
* `forWhile`, `forUpTo` — the counting loops `for (i = 0; i < n; i++)`, with and
  without a way out.
* `Yields.forWhile_succ`, `Yields.forUpTo_succ` — one round of a loop, then the
  others; induction over what a loop works off does the rest.
* `Within R m` — whatever the program does to the state is a step of the preorder
  `R`; `Within.bind` and its companions — so is what it is made of.
-/

namespace LuatosPc

/-- A program over states `σ` that returns an `α` or faults. -/
abbrev Prog (ε σ α : Type) := StateT σ (Except ε) α

/-- The program, started in `s`, returns `a` in state `s'`. -/
def Yields {ε σ α : Type} (m : Prog ε σ α) (s : σ) (a : α) (s' : σ) : Prop :=
  m s = .ok (a, s')

section

variable {ε σ α β : Type} {s s₁ s₂ : σ}

theorem Yields.pure (a : α) (s : σ) : Yields (pure a : Prog ε σ α) s a s := rfl

/-- One program after another. -/
theorem Yields.bind_eq {m : Prog ε σ α} {a : α} (h : Yields m s a s₁) (f : α → Prog ε σ β) :
    (m >>= f) s = f a s₁ := by
  show (m s >>= fun p => f p.1 p.2) = f a s₁
  rw [show m s = .ok (a, s₁) from h]
  rfl

theorem Yields.bind {m : Prog ε σ α} {f : α → Prog ε σ β} {a : α} {b : β}
    (h₁ : Yields m s a s₁) (h₂ : Yields (f a) s₁ b s₂) : Yields (m >>= f) s b s₂ :=
  (h₁.bind_eq f).trans h₂

/-- A program that returned made its two parts return. -/
theorem Yields.of_bind {m : Prog ε σ α} {f : α → Prog ε σ β} {b : β}
    (h : Yields (m >>= f) s b s₂) : ∃ a s₁, Yields m s a s₁ ∧ Yields (f a) s₁ b s₂ := by
  change (m s >>= fun p => f p.1 p.2) = .ok (b, s₂) at h
  cases hm : m s with
  | error e =>
    rw [hm] at h
    cases h
  | ok p =>
    rw [hm] at h
    exact ⟨p.1, p.2, hm, h⟩

theorem Yields.get (s : σ) : Yields (get : Prog ε σ σ) s s s := rfl

/-- A program that goes by the state that it finds. -/
theorem Yields.of_get {f : σ → Prog ε σ β} {b : β}
    (h : Yields (MonadState.get >>= f) s b s₂) : Yields (f s) s b s₂ :=
  ((Yields.get s).bind_eq f).symm.trans h

/-- A program returns at most once. -/
theorem Yields.unique {m : Prog ε σ α} {a b : α} (h₁ : Yields m s a s₁) (h₂ : Yields m s b s₂) :
    a = b ∧ s₁ = s₂ := by
  have h : (Except.ok (a, s₁) : Except ε (α × σ)) = .ok (b, s₂) := h₁.symm.trans h₂
  simpa using h

/-- What is computed of a run tells that there is one. -/
theorem exists_yields {m : Prog ε σ α} {f : α × σ → β} {b : β}
    (h : (m s).toOption.map f = some b) : ∃ a s', Yields m s a s' ∧ f (a, s') = b := by
  cases hm : m s with
  | error e =>
    rw [hm] at h
    cases h
  | ok p =>
    rw [hm] at h
    exact ⟨p.1, p.2, hm, Option.some.inj h⟩

end

/-! ## Counting loops -/

/-- `for (; n > 0; n--, i++)` around a body that says whether to go on. -/
def forWhile {ε σ : Type} (body : Nat → Prog ε σ Bool) : Nat → Nat → Prog ε σ Unit
  | 0, _ => pure ()
  | n + 1, i => do
    if ← body i then forWhile body n (i + 1) else pure ()

/-- The same loop around a body that always goes on. -/
def forUpTo {ε σ : Type} (body : Nat → Prog ε σ Unit) (n i : Nat) : Prog ε σ Unit :=
  forWhile (fun j => do body j; return true) n i

section

variable {ε σ : Type} {s s₁ s₂ : σ} {n i : Nat}

theorem Yields.forWhile_zero (body : Nat → Prog ε σ Bool) (i : Nat) (s : σ) :
    Yields (forWhile body 0 i) s () s := rfl

/-- One round of a loop, then the others. -/
theorem Yields.forWhile_succ {body : Nat → Prog ε σ Bool} (h : Yields (body i) s true s₁)
    (hrest : Yields (forWhile body n (i + 1)) s₁ () s₂) :
    Yields (forWhile body (n + 1) i) s () s₂ :=
  h.bind hrest

theorem Yields.forUpTo_zero (body : Nat → Prog ε σ Unit) (i : Nat) (s : σ) :
    Yields (forUpTo body 0 i) s () s := rfl

theorem Yields.forUpTo_succ {body : Nat → Prog ε σ Unit} (h : Yields (body i) s () s₁)
    (hrest : Yields (forUpTo body n (i + 1)) s₁ () s₂) :
    Yields (forUpTo body (n + 1) i) s () s₂ :=
  forWhile_succ (h.bind (Yields.pure true s₁)) hrest

end

/-! ## What a program leaves alone -/

/-- Every state that the program returns in is related to the one it started in. -/
structure Within {ε σ α : Type} (R : σ → σ → Prop) (m : Prog ε σ α) : Prop where
  related : ∀ {s a s'}, Yields m s a s' → R s s'

namespace Within

variable {ε σ α β : Type} {R : σ → σ → Prop}

theorem pure [Std.Refl R] (a : α) : Within R (pure a : Prog ε σ α) := by
  constructor
  intro s b s' h
  cases h
  exact Std.Refl.refl s

theorem throw (e : ε) : Within R (throw e : Prog ε σ α) := by
  constructor
  intro s a s' h
  cases h

theorem get [Std.Refl R] : Within R (get : Prog ε σ σ) := by
  constructor
  intro s a s' h
  cases h
  exact Std.Refl.refl s

theorem modifyGet {f : σ → α × σ} (h : ∀ s, R s (f s).2) :
    Within R (modifyGet f : Prog ε σ α) := by
  constructor
  intro s a s' hm
  have hf : f s = (a, s') := Except.ok.inj hm
  have hs := h s
  rwa [hf] at hs

theorem modify {f : σ → σ} (h : ∀ s, R s (f s)) : Within R (modify f : Prog ε σ Unit) :=
  modifyGet h

theorem bind [IsTrans σ R] {m : Prog ε σ α} {f : α → Prog ε σ β} (hm : Within R m)
    (hf : ∀ a, Within R (f a)) : Within R (m >>= f) := by
  constructor
  intro s b s₂ h
  obtain ⟨a, s₁, h₁, h₂⟩ := h.of_bind
  exact IsTrans.trans _ _ _ (hm.related h₁) ((hf a).related h₂)

theorem ite {c : Prop} [Decidable c] {m n : Prog ε σ α} (hm : Within R m) (hn : Within R n) :
    Within R (if c then m else n) := by
  split
  · exact hm
  · exact hn

/-- A loop, by induction over the number of rounds left. -/
theorem forWhile [Std.Refl R] [IsTrans σ R] {body : Nat → Prog ε σ Bool}
    (h : ∀ i, Within R (body i)) (n i : Nat) : Within R (forWhile body n i) := by
  induction n generalizing i with
  | zero => exact Within.pure ()
  | succ n ih =>
    refine (h i).bind fun goOn => ?_
    exact Within.ite (ih (i + 1)) (Within.pure ())

theorem forUpTo [Std.Refl R] [IsTrans σ R] {body : Nat → Prog ε σ Unit}
    (h : ∀ i, Within R (body i)) (n i : Nat) : Within R (forUpTo body n i) :=
  forWhile (fun j => (h j).bind fun _ => Within.pure true) n i

end Within

end LuatosPc
