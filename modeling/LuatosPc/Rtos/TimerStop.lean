import LuatosPc.Rtos.Timer

/-!
# Stopping a timer that is not running

`luat_timer_stop` looks for `os_timer` in the table.  A timer that was never started has a
`NULL` there, which is what a free slot holds; one that was stopped keeps the address of
its libuv timer, a block that the heap may have given to another timer since.

* `blockOf` — the block of the last start of a timer, as the history has it;
  `osTimer_eq_blockOf` — what `os_timer` points to in every run.
* `luatTimerStop_eq_iff` — when a stop returns -1 and changes nothing.
* `stop_idle_iff` — so it does for a timer that was never started if and only if no slot
  is free, and for any other if and only if its last block is in no slot.
-/

namespace LuatosPc.Rtos.Timer

variable {w : PtrSize}

/-- The block that timer `t` has after a transition, if it had `a` before. -/
def blockAfter (t : TimerPtr) (a : Option Addr) (e : Trans w) : Option Addr :=
  match e.act, e.out with
  | .luatTimerStart v _ b _, .ret r => if v = t ∧ r = 0 then some b else a
  | _, _ => a

/-- The block of the last start of timer `t` that succeeded. -/
def blockOf (t : TimerPtr) (tr : List (Trans w)) : Option Addr := tr.foldl (blockAfter t) none

theorem blockOf_concat (t : TimerPtr) (tr : List (Trans w)) (e : Trans w) :
    blockOf t (tr ++ [e]) = blockAfter t (blockOf t tr) e := by
  simp [blockOf]

section

variable {σ σ' : State w} {o : Answer} {t v : TimerPtr}

theorem osTimer_setLuat {x : LuatTimer w} (hx : x.osTimer = (σ.luat v).osTimer) :
    ((σ.setLuat v x).luat t).osTimer = (σ.luat t).osTimer := by
  by_cases htv : t = v
  · subst htv
    rw [State.setLuat_luat_self, hx]
  · rw [State.setLuat_luat_of_ne σ htv]

/-- An expiry leaves the pointers alone. -/
theorem osTimer_timerCb (σ : State w) (h : UvTimer w) (t : TimerPtr) :
    ((σ.timerCb h).1.luat t).osTimer = (σ.luat t).osTimer := by
  unfold State.timerCb
  split
  · rfl
  · dsimp only
    split
    · rfl
    · split
      · rfl
      · dsimp only
        split
        · exact osTimer_setLuat rfl
        · split <;> rfl

/-- A start, if it succeeds, sets the pointer of its own timer. -/
theorem osTimer_luatTimerStart (σ : State w) (v t : TimerPtr) (a : Addr) (initRet : Int) :
    ((σ.luatTimerStart v a initRet).1.luat t).osTimer =
      if v = t ∧ (σ.luatTimerStart v a initRet).2 = 0 then some a else (σ.luat t).osTimer := by
  cases hfree : σ.getFreeTimerId with
  | none => simp [luatTimerStart_of_none hfree]
  | some i =>
    rw [luatTimerStart_of_some hfree]
    by_cases hret : initRet = 0
    · subst hret
      by_cases hvt : v = t
      · subst hvt
        simp [State.setHandle]
      · have hne : t ≠ v := Ne.symm hvt
        simp [State.setHandle, State.setLuat_luat_of_ne _ hne, State.setSlot, hvt]
    · simp [hret, State.setHandle]

/-- **One step** of `os_timer`. -/
theorem osTimer_step {b : Act w} (hs : step σ b = some (σ', o)) (t : TimerPtr) :
    (σ'.luat t).osTimer = blockAfter t (σ.luat t).osTimer ⟨σ, b, o, σ'⟩ := by
  cases b with
  | luatTimerStart v setup a initRet =>
    simp only [step, Option.ite_none_right_eq_some, Option.some.injEq, Prod.mk.injEq] at hs
    obtain ⟨-, rfl, rfl⟩ := hs
    have hfill : ((σ.setLuat v { σ.luat v with toSetup := setup }).luat t).osTimer =
        (σ.luat t).osTimer := osTimer_setLuat rfl
    rw [osTimer_luatTimerStart, hfill]
    rfl
  | luatTimerStop v =>
    have hs' : σ.luatTimerStop v = (σ', o) := Option.some.inj hs
    unfold State.luatTimerStop at hs'
    dsimp only at hs'
    split at hs'
    · cases hs'
      rfl
    · split at hs' <;> cases hs' <;> rfl
  | luatTimerGet id =>
    cases hs
    rfl
  | expire a =>
    simp only [step, Option.bind_eq_bind, Option.bind_eq_some_iff, Option.ite_none_right_eq_some,
      Option.some.injEq] at hs
    obtain ⟨h, -, -, hcb⟩ := hs
    have hσ' : σ' = ((σ.setHandle a (some h.uvTimerStop)).timerCb h.uvTimerStop).1 := by
      rw [hcb]
    rw [hσ', osTimer_timerCb]
    rfl
  | onFree a =>
    simp only [step, Option.bind_eq_bind, Option.bind_eq_some_iff, Option.ite_none_right_eq_some,
      Option.some.injEq, Prod.mk.injEq] at hs
    obtain ⟨h, -, -, rfl, rfl⟩ := hs
    rfl

/-- **What `os_timer` points to** in every run: the block of the last start. -/
theorem osTimer_eq_blockOf {tr : List (Trans w)} (h : Run (machine w) tr σ) (t : TimerPtr) :
    (σ.luat t).osTimer = blockOf t tr := by
  induction h with
  | start => rfl
  | snoc _ hs ih => rw [blockOf_concat, ← ih, osTimer_step hs]

/-- A stop that finds nothing. -/
theorem luatTimerStop_eq_iff (σ : State w) (t : TimerPtr) :
    σ.luatTimerStop t = (σ, .ret (-1)) ↔ ∀ i, σ.timers i ≠ (σ.luat t).osTimer := by
  unfold State.luatTimerStop
  dsimp only
  split
  · rename_i hfind
    refine iff_of_true rfl fun i hi => ?_
    have hne := Fin.find?_eq_none_iff.1 hfind i
    exact of_decide_eq_false hne hi.symm
  · rename_i i hfind
    have hi : (σ.luat t).osTimer = σ.timers i := by
      simpa using (Fin.find?_eq_some_iff.1 hfind).1
    refine iff_of_false ?_ fun hne => hne i hi.symm
    split <;> simp

end

/-- **A stop of a timer that is not running** returns -1 and changes nothing: for a timer
that was never started, if and only if no slot is free; for one that was, if and only if
no slot holds the block of its last start. -/
theorem stop_idle_iff {tr : List (Trans w)} {σ : State w} (h : Run (machine w) tr σ)
    (t : TimerPtr) :
    (blockOf t tr = none →
      (step σ (.luatTimerStop t) = some (σ, .ret (-1)) ↔ ∀ i, σ.timers i ≠ none)) ∧
    ∀ a, blockOf t tr = some a →
      (step σ (.luatTimerStop t) = some (σ, .ret (-1)) ↔ ∀ i, σ.timers i ≠ some a) := by
  have hstop : step σ (.luatTimerStop t) = some (σ, .ret (-1)) ↔
      ∀ i, σ.timers i ≠ blockOf t tr := by
    rw [← osTimer_eq_blockOf h, ← luatTimerStop_eq_iff]
    exact Option.some_inj
  constructor
  · intro hnone
    rw [hstop, hnone]
  · intro a ha
    rw [hstop, ha]

/-- Timer 1 is started and stopped. -/
def stopOnceOps : List (Act .eight) :=
  [.luatTimerStart 1 ⟨10, 100, 0, 7⟩ 50 0, .luatTimerStop 1]

theorem stop_idle_twice :
    blockOf 1 ((machine .eight).traceOf stopOnceOps) = some 50 ∧
      step ((machine .eight).stateOf stopOnceOps) (.luatTimerStop 1) =
        some ((machine .eight).stateOf stopOnceOps, .ret (-1)) := by
  have hrun : Run (machine .eight) ((machine .eight).traceOf stopOnceOps)
      ((machine .eight).stateOf stopOnceOps) := Machine.run_exec (by decide +kernel)
  have hblock : blockOf 1 ((machine .eight).traceOf stopOnceOps) = some 50 := by decide +kernel
  exact ⟨hblock, ((stop_idle_iff hrun 1).2 50 hblock).2 (by decide +kernel)⟩

/-- The first slot. -/
def slot0 : Fin timerIdMax := ⟨0, by decide⟩

/-- Timer 1 is started and stopped, and its block is freed and given to timer 2. -/
def reusedOps : List (Act .eight) :=
  [.luatTimerStart 1 ⟨10, 100, 0, 7⟩ 50 0, .luatTimerStop 1, .onFree 50,
    .luatTimerStart 2 ⟨11, 100, 0, 7⟩ 50 0]

/-- A timer that was never started passes `NULL` to libuv; a timer that was stopped closes
the libuv timer of another one and frees its slot. -/
theorem stop_idle_harms :
    (step (machine .eight).init (.luatTimerStop 1)).map Prod.snd = some .nullHandle ∧
    Run (machine .eight) ((machine .eight).traceOf reusedOps)
      ((machine .eight).stateOf reusedOps) ∧
    (∀ i a h, ¬ Owns ((machine .eight).stateOf reusedOps) i 1 a h) ∧
    (∃ h, Owns ((machine .eight).stateOf reusedOps) slot0 2 50 h) ∧
    (step ((machine .eight).stateOf reusedOps) (.luatTimerStop 1)).map
      (fun r => (r.1.timers slot0, r.1.handles 50, r.2)) =
        some (none, some ⟨some 2, none, true⟩, .ret 0) := by
  have hblock : ((machine .eight).stateOf reusedOps).handles 50 =
      some ⟨some 2, some 100, false⟩ := by decide +kernel
  refine ⟨by decide +kernel, Machine.run_exec (by decide +kernel), ?_, ?_, by decide +kernel⟩
  · intro i a h howns
    have hos : (((machine .eight).stateOf reusedOps).luat 1).osTimer = some 50 := by decide +kernel
    obtain rfl : a = 50 := Option.some.inj (howns.osTimer.symm.trans hos)
    obtain rfl : h = ⟨some 2, some 100, false⟩ := Option.some.inj (howns.block.symm.trans hblock)
    exact absurd howns.data (by decide)
  · exact ⟨_, by decide +kernel, hblock, rfl, rfl, by decide +kernel⟩

end LuatosPc.Rtos.Timer
