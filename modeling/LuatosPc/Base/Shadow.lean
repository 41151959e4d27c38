import LuatosPc.Base.Machine

/-!
# A machine that is the shadow of another

What a program computes with numbers that wrap around is the shadow of what it would
compute with numbers that do not, as long as these stay close enough together.  The
machine with the unbounded numbers is easier to reason about; what is proved of its runs
holds of the real ones.

* `Machine.Shadows` — every step of the shadow that meets a condition is the image of a
  step of the machine that casts it, which keeps an invariant.
* `Machine.Shadows.run` — so every run is the image of a run.
-/

namespace LuatosPc

variable {S S' A O : Type*}

/-- A transition, seen through a view of the states. -/
def Transition.image (view : S' → S) (e : Transition S' A O) : Transition S A O :=
  ⟨view e.src, e.act, e.out, view e.dst⟩

/-- `M` does what `N` does, seen through `view`, as long as `J` holds of the states of `N`
and the steps meet `C`. -/
structure Machine.Shadows (M : Machine S A O) (N : Machine S' A O) (view : S' → S)
    (J : S' → Prop) (C : Transition S A O → Prop) : Prop where
  init : M.init = view N.init
  inv : J N.init
  step : ∀ t a s o, J t → M.step (view t) a = some (s, o) → C ⟨view t, a, o, s⟩ →
    ∃ t', N.step t a = some (t', o) ∧ s = view t' ∧ J t'

/-- A run of the shadow is the image of a run. -/
theorem Machine.Shadows.run {M : Machine S A O} {N : Machine S' A O} {view : S' → S}
    {J : S' → Prop} {C : Transition S A O → Prop} (hsh : M.Shadows N view J C)
    {tr : List (Transition S A O)} {s : S} (h : Run M tr s) (hC : ∀ e ∈ tr, C e) :
    ∃ tr' t, Run N tr' t ∧ tr = tr'.map (Transition.image view) ∧ s = view t ∧ J t := by
  induction h with
  | start => exact ⟨[], N.init, .start, rfl, hsh.init, hsh.inv⟩
  | @snoc tr s s' a o _ hs ih =>
    obtain ⟨tr', t, hrun, rfl, rfl, hJ⟩ := ih fun e he => hC e (List.mem_append_left _ he)
    obtain ⟨t', ht', rfl, hJ'⟩ := hsh.step t a s' o hJ hs (hC _ (by simp))
    refine ⟨tr' ++ [⟨t, a, o, t'⟩], t', .snoc hrun ht', ?_, rfl, hJ'⟩
    rw [List.map_append]
    rfl

end LuatosPc
