import Mathlib

/-!
# Machines, runs and what holds along them

Components that are driven from outside (a table of sockets behind its callbacks,
a device behind the threads that use it) are all of one kind: a state, a set of
actions, and a step that says what an action does, with which answer, or that it is
not possible now.  An action packs a call together with everything the environment
decides about it, so a step is a function and a concrete run can be evaluated.

* `Machine` — the initial state and the step function.
* `Transition`, `Run` — a run is the list of the transitions made so far, each
  with the state it started from, so that a property may look at the history.
* `Run.split`, `Path.split` — every transition starts in a state that the ones before
  it reach.
* `Run.invariant`, `Run.history_invariant` — the two induction rules: a
  property of states, and a property of a state together with its history, the
  second under a condition that every transition of the run meets.
* `Path` — a part of a run, from any state; `Path.history_invariant` — the
  induction rule for it; `Path.forall_iff` — when two conditions on its transitions
  come to the same.
* `Machine.Simulates` — one machine seen through another: every run of the
  first is a run of the second (`Simulates.run`).
* `exec` — the evaluator; `run_exec` turns its result into a run, and
  `along_traceOf` checks a condition along it.
-/

namespace LuatosPc

/-- A machine: where it starts, and what an action does in a state.  `none`
means that the action is not possible there. -/
structure Machine (S A O : Type*) where
  /-- The initial state. -/
  init : S
  /-- One action: the next state and the answer given. -/
  step : S → A → Option (S × O)

/-- One transition of a run, with the state it starts from and the state it
leads to. -/
structure Transition (S A O : Type*) where
  /-- The state before. -/
  src : S
  /-- What was done. -/
  act : A
  /-- What was answered. -/
  out : O
  /-- The state after. -/
  dst : S

/-- `Run M tr s`: the machine can make the transitions `tr`, oldest first, and
is then in state `s`. -/
inductive Run {S A O : Type*} (M : Machine S A O) : List (Transition S A O) → S → Prop
  | start : Run M [] M.init
  | snoc {tr : List (Transition S A O)} {s s' : S} {a : A} {o : O} :
      Run M tr s → M.step s a = some (s', o) → Run M (tr ++ [⟨s, a, o, s'⟩]) s'

/-- `Path M s tr s'`: from state `s` the machine can make the transitions `tr` and
is then in state `s'`. -/
inductive Path {S A O : Type*} (M : Machine S A O) (s : S) : List (Transition S A O) → S → Prop
  | nil : Path M s [] s
  | snoc {tr : List (Transition S A O)} {s' s'' : S} {a : A} {o : O} :
      Path M s tr s' → M.step s' a = some (s'', o) → Path M s (tr ++ [⟨s', a, o, s''⟩]) s''

namespace Path

variable {S A O : Type*} {M : Machine S A O} {tr : List (Transition S A O)} {s s' : S}

/-- A path from the initial state is a run. -/
theorem toRun (h : Path M M.init tr s) : Run M tr s := by
  induction h with
  | nil => exact .start
  | snoc _ hs ih => exact ih.snoc hs

/-- Every transition of a path is a step of the machine from a state that the
transitions before it reach. -/
theorem split (h : Path M s tr s') {pre post : List (Transition S A O)} {e : Transition S A O}
    (he : tr = pre ++ e :: post) :
    Path M s pre e.src ∧ M.step e.src e.act = some (e.dst, e.out) := by
  induction h generalizing post with
  | nil => simp at he
  | @snoc tr t t' a o hpath hstep ih =>
    rcases List.eq_nil_or_concat post with rfl | ⟨post', l, rfl⟩
    · -- the last transition of the path
      obtain ⟨rfl, rfl⟩ : tr = pre ∧ (⟨t, a, o, t'⟩ : Transition S A O) = e := by
        simpa using List.append_inj' he rfl
      exact ⟨hpath, hstep⟩
    · have he' : tr ++ [⟨t, a, o, t'⟩] = (pre ++ e :: post') ++ [l] := by
        rw [he]; simp
      exact ih (List.append_inj' he' rfl).1

end Path

namespace Run

variable {S A O : Type*} {M : Machine S A O} {tr : List (Transition S A O)} {s : S}

/-- Every run is a path from the initial state. -/
theorem toPath (h : Run M tr s) : Path M M.init tr s := by
  induction h with
  | start => exact .nil
  | snoc _ hs ih => exact ih.snoc hs

/-- Every transition of a run is a step of the machine from a state that the
transitions before it reach. -/
theorem split (h : Run M tr s) {pre post : List (Transition S A O)} {e : Transition S A O}
    (he : tr = pre ++ e :: post) : Run M pre e.src ∧ M.step e.src e.act = some (e.dst, e.out) := by
  obtain ⟨hpre, hstep⟩ := h.toPath.split he
  exact ⟨hpre.toRun, hstep⟩

/-- A transition of a run is a step of the machine. -/
theorem step_of_mem (h : Run M tr s) {e : Transition S A O} (he : e ∈ tr) :
    M.step e.src e.act = some (e.dst, e.out) := by
  obtain ⟨pre, post, rfl⟩ := List.append_of_mem he
  exact (h.split rfl).2

/-- **Invariants.**  What holds at the start and is kept by every step holds in
every state a run reaches. -/
theorem invariant {I : S → Prop} (h : Run M tr s) (h0 : I M.init)
    (hstep : ∀ s a s' o, I s → M.step s a = some (s', o) → I s') : I s := by
  induction h with
  | start => exact h0
  | snoc _ hs ih => exact hstep _ _ _ _ ih hs

/-- **Invariants with a history.**  A relation between the transitions made and
the state reached, kept by every step that meets the condition `C`, holds after
every run all of whose transitions meet `C`. -/
theorem history_invariant {I : List (Transition S A O) → S → Prop}
    {C : List (Transition S A O) → Transition S A O → Prop} (h : Run M tr s)
    (hC : ∀ pre e post, tr = pre ++ e :: post → C pre e) (h0 : I [] M.init)
    (hstep : ∀ tr s a s' o, Run M tr s → I tr s → M.step s a = some (s', o) →
      C tr ⟨s, a, o, s'⟩ → I (tr ++ [⟨s, a, o, s'⟩]) s') : I tr s := by
  induction h with
  | start => exact h0
  | @snoc tr s s' a o hrun hs ih =>
    refine hstep _ _ _ _ _ hrun (ih ?_) hs (hC tr _ [] rfl)
    intro pre e post he
    exact hC pre e (post ++ [⟨s, a, o, s'⟩]) (by rw [he]; simp)

end Run

/-! ## Parts of a run -/

section

variable {S A O : Type*} {M : Machine S A O} {tr : List (Transition S A O)} {s s' : S}

/-- What follows a transition of a run is a path from where it leads. -/
theorem Run.path (h : Run M tr s) {pre post : List (Transition S A O)} {e : Transition S A O}
    (he : tr = pre ++ e :: post) : Path M e.dst post s := by
  induction h generalizing post with
  | start => simp at he
  | @snoc tr s s' a o hrun hstep ih =>
    rcases List.eq_nil_or_concat post with rfl | ⟨post', l, rfl⟩
    · obtain ⟨-, rfl⟩ : tr = pre ∧ (⟨s, a, o, s'⟩ : Transition S A O) = e := by
        simpa using List.append_inj' he rfl
      exact .nil
    · have he' : tr ++ [⟨s, a, o, s'⟩] = (pre ++ e :: post') ++ [l] := by
        rw [he]; simp
      obtain ⟨htr, hl⟩ := List.append_inj' he' rfl
      obtain rfl : (⟨s, a, o, s'⟩ : Transition S A O) = l := by simpa using hl
      rw [List.concat_eq_append]
      exact (ih htr).snoc hstep

/-- **Invariants along a path**, with the transitions made so far, under a
condition that every transition meets. -/
theorem Path.history_invariant {I : List (Transition S A O) → S → Prop}
    {C : Transition S A O → Prop} (h : Path M s tr s') (hC : ∀ e ∈ tr, C e) (h0 : I [] s)
    (hstep : ∀ tr t a t' o, I tr t → M.step t a = some (t', o) → C ⟨t, a, o, t'⟩ →
      I (tr ++ [⟨t, a, o, t'⟩]) t') : I tr s' := by
  induction h with
  | nil => exact h0
  | @snoc tr t t' a o _ hs ih =>
    refine hstep _ _ _ _ _ (ih ?_) hs (hC _ (by simp))
    intro e he
    exact hC e (by simp [he])

/-- Along a path on which `P` holds as long as `Q` holds of every transition, two
conditions that agree where `P` holds agree on the whole. -/
theorem Path.forall_iff {P : S → Prop} {C Q R : Transition S A O → Prop}
    (h : Path M s tr s') (hC : ∀ e ∈ tr, C e) (h0 : P s)
    (hiff : ∀ t a t' o, P t → M.step t a = some (t', o) → C ⟨t, a, o, t'⟩ →
      (Q ⟨t, a, o, t'⟩ ↔ R ⟨t, a, o, t'⟩))
    (hkeep : ∀ t a t' o, P t → M.step t a = some (t', o) → C ⟨t, a, o, t'⟩ →
      Q ⟨t, a, o, t'⟩ → P t') : (∀ e ∈ tr, Q e) ↔ ∀ e ∈ tr, R e := by
  suffices hboth : ((∀ e ∈ tr, Q e) ↔ ∀ e ∈ tr, R e) ∧ ((∀ e ∈ tr, Q e) → P s') from hboth.1
  induction h with
  | nil => exact ⟨by simp, fun _ => h0⟩
  | @snoc tr t t' a o _ hs ih =>
    obtain ⟨ihiff, ihP⟩ := ih fun e he => hC e (by simp [he])
    have hlast : (∀ e ∈ tr, Q e) → (Q ⟨t, a, o, t'⟩ ↔ R ⟨t, a, o, t'⟩) := by
      intro hQ
      exact hiff t a t' o (ihP hQ) hs (hC _ (by simp))
    simp only [List.forall_mem_append, List.forall_mem_singleton]
    refine ⟨⟨?_, ?_⟩, ?_⟩
    · rintro ⟨hQ, hq⟩
      exact ⟨ihiff.1 hQ, (hlast hQ).1 hq⟩
    · rintro ⟨hR, hr⟩
      exact ⟨ihiff.2 hR, (hlast (ihiff.2 hR)).2 hr⟩
    · rintro ⟨hQ, hq⟩
      exact hkeep t a t' o (ihP hQ) hs (hC _ (by simp)) hq

end

/-! ## One machine seen through another -/

/-- `N` is what one sees of `M` through `view` on states and `act` on
transitions: it starts where `M` starts and follows each of its steps. -/
structure Machine.Simulates {S A O S' A' : Type*} (M : Machine S A O)
    (N : Machine S' A' Unit) (view : S → S') (act : Transition S A O → A') : Prop where
  /-- The initial states correspond. -/
  init : view M.init = N.init
  /-- A step of `M` is a step of `N`. -/
  step : ∀ s a s' o, M.step s a = some (s', o) →
    N.step (view s) (act ⟨s, a, o, s'⟩) = some (view s', ())

/-- A transition of `M`, seen through a view. -/
def Transition.view {S A O S' A' : Type*} (view : S → S') (act : Transition S A O → A')
    (e : Transition S A O) : Transition S' A' Unit :=
  ⟨view e.src, act e, (), view e.dst⟩

/-- A run of the first machine is a run of the second. -/
theorem Machine.Simulates.run {S A O S' A' : Type*} {M : Machine S A O}
    {N : Machine S' A' Unit} {view : S → S'} {act : Transition S A O → A'}
    (hsim : M.Simulates N view act) {tr : List (Transition S A O)} {s : S} (h : Run M tr s) :
    Run N (tr.map (Transition.view view act)) (view s) := by
  induction h with
  | start =>
    rw [hsim.init]
    exact .start
  | snoc _ hs ih =>
    rw [List.map_append]
    exact .snoc ih (hsim.step _ _ _ _ hs)

/-! ## Evaluating a run -/

namespace Machine

variable {S A O : Type*} (M : Machine S A O)

/-- Make the given actions one after the other; `none` as soon as one of them is
not possible. -/
def exec (s : S) : List A → Option (List (Transition S A O) × S)
  | [] => some ([], s)
  | a :: as =>
    match M.step s a with
    | none => none
    | some (s', o) =>
      match exec s' as with
      | none => none
      | some (tr, t) => some (⟨s, a, o, s'⟩ :: tr, t)

/-- The transitions of the run that makes the given actions from the start. -/
def traceOf (as : List A) : List (Transition S A O) :=
  ((M.exec M.init as).map Prod.fst).getD []

/-- The state in which that run ends. -/
def stateOf (as : List A) : S :=
  ((M.exec M.init as).map Prod.snd).getD M.init

variable {M}

theorem run_append_exec {tr tr' : List (Transition S A O)} {s t : S} {as : List A}
    (h : Run M tr s) (he : M.exec s as = some (tr', t)) : Run M (tr ++ tr') t := by
  induction as generalizing tr s tr' with
  | nil =>
    obtain ⟨rfl, rfl⟩ : [] = tr' ∧ s = t := by simpa [exec] using he
    simpa using h
  | cons a as ih =>
    simp only [exec] at he
    split at he
    · exact absurd he (by simp)
    · rename_i s' o hs
      split at he
      · exact absurd he (by simp)
      · rename_i tr'' t' hx
        obtain ⟨rfl, rfl⟩ : (⟨s, a, o, s'⟩ : Transition S A O) :: tr'' = tr' ∧ t' = t := by
          simpa using he
        simpa using ih (h.snoc hs) hx

/-- The actions, made one after the other from state `s` after the transitions
`pre`, all meet the condition `C`. -/
def Along (M : Machine S A O) (C : List (Transition S A O) → Transition S A O → Prop)
    (pre : List (Transition S A O)) (s : S) : List A → Prop
  | [] => True
  | a :: as =>
    match M.step s a with
    | none => True
    | some (s', o) => C pre ⟨s, a, o, s'⟩ ∧ Along M C (pre ++ [⟨s, a, o, s'⟩]) s' as

theorem along_exec {C : List (Transition S A O) → Transition S A O → Prop}
    {tr tr' pre post : List (Transition S A O)} {s t : S} {as : List A} {e : Transition S A O}
    (h : M.Along C tr s as) (he : M.exec s as = some (tr', t)) (heq : tr' = pre ++ e :: post) :
    C (tr ++ pre) e := by
  induction as generalizing tr s tr' pre with
  | nil =>
    obtain ⟨rfl, -⟩ : [] = tr' ∧ s = t := by simpa [exec] using he
    exact absurd heq (by simp)
  | cons a as ih =>
    simp only [exec] at he
    split at he
    · exact absurd he (by simp)
    · rename_i s' o hs
      split at he
      · exact absurd he (by simp)
      · rename_i tr'' t' hx
        obtain ⟨rfl, rfl⟩ : (⟨s, a, o, s'⟩ : Transition S A O) :: tr'' = tr' ∧ t' = t := by
          simpa using he
        simp only [Along, hs] at h
        cases pre with
        | nil =>
          obtain ⟨rfl, -⟩ : (⟨s, a, o, s'⟩ : Transition S A O) = e ∧ tr'' = post := by
            simpa using heq
          simpa using h.1
        | cons f pre =>
          obtain ⟨rfl, rfl⟩ : (⟨s, a, o, s'⟩ : Transition S A O) = f ∧ tr'' = pre ++ e :: post := by
            simpa using heq
          simpa using ih h.2 hx rfl

/-- A condition is checked on an evaluated run action by action. -/
theorem along_traceOf {C : List (Transition S A O) → Transition S A O → Prop} {as : List A}
    (h : M.Along C [] M.init as) {pre post : List (Transition S A O)} {e : Transition S A O}
    (heq : M.traceOf as = pre ++ e :: post) : C pre e := by
  cases he : M.exec M.init as with
  | none => simp [traceOf, he] at heq
  | some p =>
    obtain ⟨tr, t⟩ := p
    simp only [traceOf, he, Option.map_some, Option.getD_some] at heq
    simpa using along_exec h he heq

/-- A condition on single transitions, checked likewise. -/
theorem forall_mem_traceOf {C : Transition S A O → Prop} {as : List A}
    (h : M.Along (fun _ e => C e) [] M.init as) : ∀ e ∈ M.traceOf as, C e := by
  intro e he
  obtain ⟨pre, post, heq⟩ := List.append_of_mem he
  exact along_traceOf h heq

theorem map_act_of_exec {tr : List (Transition S A O)} {s t : S} {as : List A}
    (he : M.exec s as = some (tr, t)) : tr.map Transition.act = as := by
  induction as generalizing s tr with
  | nil =>
    obtain ⟨rfl, -⟩ : [] = tr ∧ s = t := by simpa [exec] using he
    rfl
  | cons a as ih =>
    simp only [exec] at he
    split at he
    · exact absurd he (by simp)
    · split at he
      · exact absurd he (by simp)
      · rename_i s' o _ _ tr' t' hx
        obtain ⟨rfl, rfl⟩ : (⟨s, a, o, s'⟩ : Transition S A O) :: tr' = tr ∧ t' = t := by
          simpa using he
        rw [List.map_cons, ih hx]

/-- After `k` transitions an evaluated run makes the actions after the first `k` only. -/
theorem act_mem_of_mem_drop {as : List A} {k : Nat} {e : Transition S A O}
    (h : e ∈ (M.traceOf as).drop k) : e.act ∈ as.drop k := by
  cases he : M.exec M.init as with
  | none => simp [traceOf, he] at h
  | some p =>
    have htr : M.traceOf as = p.1 := by simp [traceOf, he]
    rw [htr] at h
    rw [← map_act_of_exec he, ← List.map_drop]
    exact List.mem_map_of_mem h

/-- An evaluated run makes the given actions only. -/
theorem act_mem_of_mem_traceOf {as : List A} {e : Transition S A O} (h : e ∈ M.traceOf as) :
    e.act ∈ as :=
  act_mem_of_mem_drop (k := 0) h

/-- An evaluated run, taken apart at one of its transitions. -/
theorem traceOf_split {as : List A} {k : Nat} (h : k < (M.traceOf as).length) :
    M.traceOf as =
      (M.traceOf as).take k ++ (M.traceOf as)[k] :: (M.traceOf as).drop (k + 1) := by
  rw [← List.drop_eq_getElem_cons h, List.take_append_drop]

/-- A list of actions that can all be made is a run. -/
theorem run_exec {as : List A} (h : (M.exec M.init as).isSome = true) :
    Run M (M.traceOf as) (M.stateOf as) := by
  obtain ⟨⟨tr, t⟩, he⟩ := Option.isSome_iff_exists.1 h
  simpa [traceOf, stateOf, he] using run_append_exec .start he

end Machine

end LuatosPc
