import LuatosPc.Base.Machine

/-!
# The timers of the RTOS layer

The model of `luat_rtos_timer_pc.c`.  A timer is a libuv timer with a `timer_data_t`.  When
it expires, libuv disarms it and calls `timer_cb`, which runs the callback of the user and
then, from the fields as the callback has left them, decides whether to arm it again.
While the callback runs, any call may be made for any timer.

* `TimerData`, `UvTimer`, `State` — timers, and the one whose callback is running.
* `luatStartRtosTimer`, `luatRtosTimerStart` and the others — the calls; `timerCb`,
  `timerCbEnd` — the two halves of `timer_cb`.
* `Act`, `step`, `machine` — every interleaving of calls, expirations and returns.
* `WillRepeat` — the callback of a repeating timer is running; `Silent` — no callback can
  come before a start; `silent_step`.
* `stopped_timer_silent_iff` — a stop silences a timer if and only if the timer is not to
  be armed again by its own callback's return.

Calls with a pointer that is no timer have no step, nor has the return of a callback
that has released its own timer, where `timer_cb` reads freed memory.  All calls
hold `timer_lock`, so that each is one step.
-/

namespace LuatosPc.Rtos.RtosTimer

/-- A `uv_timer_t *` that is not `NULL`. -/
abbrev Timer := Nat

/-- A callback, of which only the identity matters here. -/
abbrev Callback := Nat

/-- A `void *` that is handed on. -/
abbrev Ptr := Nat

/-- A `timer_data_t`. -/
structure TimerData where
  cb : Option Callback
  param : Option Ptr
  taskHandle : Option Ptr
  isRepeat : UInt8
  timeout : UInt32
  deriving DecidableEq, Repr

/-- A timer of libuv with its data; `armed` is the timeout with which it was started last,
if it is active. -/
structure UvTimer where
  data : TimerData
  armed : Option UInt32
  deriving DecidableEq, Repr

/-- `uv_timer_start`. -/
def UvTimer.uvTimerStart (u : UvTimer) (timeout : UInt32) : UvTimer :=
  { u with armed := some timeout }

/-- `uv_timer_stop`. -/
def UvTimer.uvTimerStop (u : UvTimer) : UvTimer := { u with armed := none }

/-- The timers, and the one whose callback is running. -/
structure State where
  timers : Timer → Option UvTimer
  firing : Option Timer

/-- What a step gives to the outside. -/
inductive Answer
  | nothing
  | ret (r : Int)
  | handle (t : Option Timer)
  /-- The callback of a timer is invoked. -/
  | called (t : Timer) (cb : Callback) (param : Option Ptr)
  deriving DecidableEq, Repr

namespace State

def store (σ : State) (t : Timer) (u : Option UvTimer) : State :=
  { σ with timers := Function.update σ.timers t u }

/-- `luat_create_rtos_timer`, for which the heap returns `t` for the timer, and something
for its data if `dataOk`. -/
def luatCreateRtosTimer (σ : State) (cb : Option Callback) (param taskHandle : Option Ptr)
    (t : Option Timer) (dataOk : Bool) : State × Option Timer :=
  match t with
  | none => (σ, none)
  | some t =>
    if dataOk then (σ.store t (some ⟨⟨cb, param, taskHandle, 0, 0⟩, none⟩), some t)
    else (σ, none)

/-- `luat_start_rtos_timer`. -/
def luatStartRtosTimer (σ : State) (t : Timer) (u : UvTimer) (ms : UInt32) (isRepeat : UInt8) :
    State × Int :=
  let data := { u.data with isRepeat := isRepeat, timeout := ms }
  (σ.store t (some ({ u with data := data }.uvTimerStart ms)), 0)

/-- `luat_stop_rtos_timer`. -/
def luatStopRtosTimer (σ : State) (t : Timer) (u : UvTimer) : State :=
  σ.store t (some u.uvTimerStop)

/-- `luat_release_rtos_timer`. -/
def luatReleaseRtosTimer (σ : State) (t : Timer) : State := σ.store t none

/-- `luat_rtos_timer_start` with a handle. -/
def luatRtosTimerStart (σ : State) (t : Timer) (u : UvTimer) (timeout : UInt32)
    (repeats : UInt8) (callbackFun : Option Callback) (userParam : Option Ptr) : State × Int :=
  let data := { u.data with
    isRepeat := repeats, timeout := timeout, cb := callbackFun, param := userParam }
  (σ.store t (some ({ u with data := data }.uvTimerStart timeout)), 0)

/-- The end of `timer_cb`: arm a repeating timer again. -/
def timerCbEnd (σ : State) (t : Timer) (u : UvTimer) : State :=
  let σ' := { σ with firing := none }
  if u.data.isRepeat ≠ 0 then σ'.store t (some (u.uvTimerStart u.data.timeout)) else σ'

/-- `timer_cb`, up to the callback if there is one.  libuv has stopped the timer. -/
def timerCb (σ : State) (t : Timer) (u : UvTimer) : State × Answer :=
  let σ' := σ.store t (some u.uvTimerStop)
  match u.data.cb with
  | some cb => ({ σ' with firing := some t }, .called t cb u.data.param)
  | none => (σ'.timerCbEnd t u.uvTimerStop, .nothing)

end State

/-- One action.  A handle of `none` is `NULL`. -/
inductive Act
  | luatCreateRtosTimer (cb : Option Callback) (param taskHandle : Option Ptr) (t : Option Timer)
      (dataOk : Bool)
  | luatStartRtosTimer (t : Timer) (ms : UInt32) (isRepeat : UInt8)
  | luatStopRtosTimer (t : Timer)
  | luatReleaseRtosTimer (t : Timer)
  | luatRtosTimerCreate (t : Option Timer) (dataOk : Bool)
  | luatRtosTimerDelete (handle : Option Timer)
  | luatRtosTimerStart (handle : Option Timer) (timeout : UInt32) (repeats : UInt8)
      (callbackFun : Option Callback) (userParam : Option Ptr)
  | luatRtosTimerStop (handle : Option Timer)
  /-- libuv finds that the time of a timer has come. -/
  | expire (t : Timer)
  /-- The callback that is running returns. -/
  | callbackReturn
  deriving DecidableEq, Repr

/-- One step. -/
def step (σ : State) : Act → Option (State × Answer)
  | .luatCreateRtosTimer cb param taskHandle t dataOk =>
    if ∀ t' ∈ t, σ.timers t' = none ∧ σ.firing ≠ some t' then
      let r := σ.luatCreateRtosTimer cb param taskHandle t dataOk
      some (r.1, .handle r.2)
    else none
  | .luatStartRtosTimer t ms isRepeat => do
    let r := σ.luatStartRtosTimer t (← σ.timers t) ms isRepeat
    some (r.1, .ret r.2)
  | .luatStopRtosTimer t => do some (σ.luatStopRtosTimer t (← σ.timers t), .nothing)
  | .luatReleaseRtosTimer t => do
    let _ ← σ.timers t
    some (σ.luatReleaseRtosTimer t, .nothing)
  | .luatRtosTimerCreate t dataOk =>
    if ∀ t' ∈ t, σ.timers t' = none ∧ σ.firing ≠ some t' then
      let r := σ.luatCreateRtosTimer none none none t dataOk
      some (r.1, .ret (if r.2.isSome then 0 else -1))
    else none
  | .luatRtosTimerDelete none => some (σ, .ret (-1))
  | .luatRtosTimerDelete (some t) => do
    let _ ← σ.timers t
    some (σ.luatReleaseRtosTimer t, .ret 0)
  | .luatRtosTimerStart none .. => some (σ, .ret (-1))
  | .luatRtosTimerStart (some t) timeout repeats callbackFun userParam => do
    let r := σ.luatRtosTimerStart t (← σ.timers t) timeout repeats callbackFun userParam
    some (r.1, .ret r.2)
  | .luatRtosTimerStop none => some (σ, .ret (-1))
  | .luatRtosTimerStop (some t) => do some (σ.luatStopRtosTimer t (← σ.timers t), .ret 0)
  | .expire t => do
    let u ← σ.timers t
    if u.armed.isSome ∧ σ.firing = none then some (σ.timerCb t u) else none
  | .callbackReturn => do
    let t ← σ.firing
    some (σ.timerCbEnd t (← σ.timers t), .nothing)

/-- No timer yet. -/
def State.start : State := ⟨fun _ => none, none⟩

/-- The timers under every order of calls, expirations and returns. -/
def machine : Machine State Act Answer := ⟨.start, step⟩

/-- A transition. -/
abbrev Trans := Transition State Act Answer

/-- The action starts a timer. -/
def Act.startOf : Act → Option Timer
  | .luatStartRtosTimer t .. => some t
  | .luatRtosTimerStart handle .. => handle
  | _ => none

/-- The action stops a timer. -/
def Act.stopOf : Act → Option Timer
  | .luatStopRtosTimer t => some t
  | .luatRtosTimerStop handle => handle
  | _ => none

/-- The transition invokes the callback of the timer. -/
def Invokes (t : Timer) (e : Trans) : Prop := ∃ cb param, e.out = .called t cb param

/-! ## Silence -/

/-- The callback of the timer is running, and when it returns the timer is armed again. -/
def WillRepeat (t : Timer) (σ : State) : Prop :=
  σ.firing = some t ∧ ∃ u, σ.timers t = some u ∧ u.data.isRepeat ≠ 0 ∧ u.data.cb ≠ none

/-- A timer that cannot invoke its callback before it is started: it has none, or it is not
armed and will not be. -/
def Silent (t : Timer) (σ : State) : Prop :=
  ∀ u, σ.timers t = some u →
    u.data.cb = none ∨ (u.armed = none ∧ (σ.firing = some t → u.data.isRepeat = 0))

/-- What a step does to one timer, its start apart. -/
inductive Effect (t : Timer) (σ σ' : State) : Prop
  | frame (htimer : σ'.timers t = σ.timers t) (hfiring : σ'.firing = some t → σ.firing = some t)
  | fresh (u : UvTimer) (htimer : σ'.timers t = some u) (harmed : u.armed = none)
      (hrepeat : u.data.isRepeat = 0)
  | stopped (u : UvTimer) (hbefore : σ.timers t = some u)
      (htimer : σ'.timers t = some u.uvTimerStop) (hfiring : σ'.firing = σ.firing)
  | released (htimer : σ'.timers t = none)
  | expired (u : UvTimer) (hbefore : σ.timers t = some u) (harmed : u.armed ≠ none)
      (hfiring : σ.firing = none) (hafter : σ' = (σ.timerCb t u).1)
  | returned (u : UvTimer) (hbefore : σ.timers t = some u) (hfiring : σ.firing = some t)
      (hafter : σ' = σ.timerCbEnd t u)

namespace State

variable (σ : State) {t v : Timer} (u : UvTimer)

@[simp] theorem store_timers_self (x : Option UvTimer) : (σ.store t x).timers t = x :=
  Function.update_self _ _ _

@[simp] theorem store_firing (x : Option UvTimer) : (σ.store t x).firing = σ.firing := rfl

theorem store_timers_of_ne (h : v ≠ t) (x : Option UvTimer) :
    (σ.store t x).timers v = σ.timers v :=
  Function.update_of_ne h _ _

@[simp] theorem timerCbEnd_firing : (σ.timerCbEnd t u).firing = none := by
  unfold timerCbEnd
  split <;> rfl

variable {u} in
theorem timerCbEnd_timers_self (h : σ.timers t = some u) : (σ.timerCbEnd t u).timers t =
    some (if u.data.isRepeat ≠ 0 then u.uvTimerStart u.data.timeout else u) := by
  unfold timerCbEnd
  split
  · exact store_timers_self _ _
  · exact h

theorem timerCbEnd_timers_of_ne (h : v ≠ t) : (σ.timerCbEnd t u).timers v = σ.timers v := by
  unfold timerCbEnd
  split
  · exact Function.update_of_ne h _ _
  · rfl

theorem timerCb_of_ne (h : v ≠ t) :
    (σ.timerCb t u).1.timers v = σ.timers v ∧ (σ.timerCb t u).1.firing ≠ some v := by
  unfold timerCb
  split
  · exact ⟨store_timers_of_ne σ h _, fun hv => h (Option.some.inj hv).symm⟩
  · refine ⟨?_, by simp⟩
    rw [timerCbEnd_timers_of_ne _ _ h, store_timers_of_ne _ h]

end State

section

variable {σ σ' : State} {a : Act} {o : Answer} {t : Timer}

theorem effect_store {v : Timer} {x : Option UvTimer} (h : t ≠ v) : Effect t σ (σ.store v x) :=
  .frame (State.store_timers_of_ne σ h x) id

theorem effect_create (cb : Option Callback) (param taskHandle : Option Ptr) (v : Option Timer)
    (dataOk : Bool) : Effect t σ (σ.luatCreateRtosTimer cb param taskHandle v dataOk).1 := by
  unfold State.luatCreateRtosTimer
  split
  · exact .frame rfl id
  · rename_i v
    split
    · by_cases hv : t = v
      · subst hv
        exact .fresh _ (State.store_timers_self _ _) rfl rfl
      · exact effect_store hv
    · exact .frame rfl id

theorem effect_stop {v : Timer} {u : UvTimer} (hu : σ.timers v = some u) :
    Effect t σ (σ.luatStopRtosTimer v u) := by
  by_cases hv : t = v
  · subst hv
    exact .stopped u hu (State.store_timers_self _ _) rfl
  · exact effect_store hv

theorem effect_release (v : Timer) : Effect t σ (σ.luatReleaseRtosTimer v) := by
  by_cases hv : t = v
  · subst hv
    exact .released (State.store_timers_self _ _)
  · exact effect_store hv

/-- A call on a timer that exists, and what it leaves and answers. -/
theorem bind_timer {v : Timer} {k : UvTimer → State × Answer}
    (h : (σ.timers v).bind (fun u => some (k u)) = some (σ', o)) :
    ∃ u, σ.timers v = some u ∧ (k u).1 = σ' ∧ (k u).2 = o := by
  obtain ⟨u, hu, hk⟩ := Option.bind_eq_some_iff.1 h
  exact ⟨u, hu, Prod.mk.inj (Option.some.inj hk)⟩

/-- **What a step does to a timer** that it does not start. -/
theorem step_effect (h : step σ a = some (σ', o)) (hstart : a.startOf ≠ some t) :
    Effect t σ σ' := by
  cases a with
  | luatCreateRtosTimer cb param taskHandle v dataOk =>
    simp only [step, Option.ite_none_right_eq_some, Option.some.injEq, Prod.mk.injEq] at h
    obtain ⟨-, rfl, -⟩ := h
    exact effect_create cb param taskHandle v dataOk
  | luatRtosTimerCreate v dataOk =>
    simp only [step, Option.ite_none_right_eq_some, Option.some.injEq, Prod.mk.injEq] at h
    obtain ⟨-, rfl, -⟩ := h
    exact effect_create none none none v dataOk
  | luatStartRtosTimer v ms isRepeat =>
    obtain ⟨u, -, rfl, -⟩ := bind_timer h
    exact effect_store fun hv => hstart (congrArg some hv.symm)
  | luatRtosTimerStart handle timeout repeats callbackFun userParam =>
    cases handle with
    | none =>
      cases h
      exact .frame rfl id
    | some v =>
      obtain ⟨u, -, rfl, -⟩ := bind_timer h
      exact effect_store fun hv => hstart (congrArg some hv.symm)
  | luatStopRtosTimer v =>
    obtain ⟨u, hu, rfl, -⟩ := bind_timer h
    exact effect_stop hu
  | luatRtosTimerStop handle =>
    cases handle with
    | none =>
      cases h
      exact .frame rfl id
    | some v =>
      obtain ⟨u, hu, rfl, -⟩ := bind_timer h
      exact effect_stop hu
  | luatReleaseRtosTimer v =>
    obtain ⟨u, -, rfl, -⟩ := bind_timer h
    exact effect_release v
  | luatRtosTimerDelete handle =>
    cases handle with
    | none =>
      cases h
      exact .frame rfl id
    | some v =>
      obtain ⟨u, -, rfl, -⟩ := bind_timer h
      exact effect_release v
  | expire v =>
    simp only [step, Option.bind_eq_bind, Option.bind_eq_some_iff, Option.ite_none_right_eq_some,
      Option.some.injEq] at h
    obtain ⟨u, hu, ⟨harmed, hnone⟩, hcb⟩ := h
    have hσ' : σ' = (σ.timerCb v u).1 := by rw [hcb]
    by_cases hv : t = v
    · subst hv
      exact .expired u hu (Option.isSome_iff_ne_none.1 harmed) hnone hσ'
    · rw [hσ']
      obtain ⟨htimer, hfiring⟩ := State.timerCb_of_ne σ u hv
      exact .frame htimer fun hv => absurd hv hfiring
  | callbackReturn =>
    simp only [step, Option.bind_eq_bind, Option.bind_eq_some_iff, Option.some.injEq,
      Prod.mk.injEq] at h
    obtain ⟨v, hfiring, u, hu, rfl, -⟩ := h
    by_cases hv : t = v
    · subst hv
      exact .returned u hu hfiring rfl
    · exact .frame (State.timerCbEnd_timers_of_ne σ u hv) (by simp)

/-- Only a timer that is armed and has a callback invokes it. -/
theorem step_called {cb : Callback} {param : Option Ptr}
    (h : step σ a = some (σ', .called t cb param)) :
    ∃ u, σ.timers t = some u ∧ u.armed ≠ none ∧ u.data.cb = some cb := by
  cases a with
  | expire v =>
    simp only [step, Option.bind_eq_bind, Option.bind_eq_some_iff, Option.ite_none_right_eq_some,
      Option.some.injEq] at h
    obtain ⟨u, hu, ⟨harmed, -⟩, hcb⟩ := h
    unfold State.timerCb at hcb
    split at hcb
    · rename_i cb' hcb'
      simp only [Prod.mk.injEq, Answer.called.injEq] at hcb
      obtain ⟨-, rfl, rfl, -⟩ := hcb
      exact ⟨u, hu, Option.isSome_iff_ne_none.1 harmed, hcb'⟩
    · simp at hcb
  | luatRtosTimerStart handle => cases handle <;> simp [step, Option.bind_eq_some_iff] at h
  | luatRtosTimerStop handle => cases handle <;> simp [step, Option.bind_eq_some_iff] at h
  | luatRtosTimerDelete handle => cases handle <;> simp [step, Option.bind_eq_some_iff] at h
  | _ => simp [step, Option.bind_eq_some_iff] at h

/-- **Silence is kept** by every step but a start. -/
theorem silent_step (hs : Silent t σ) (h : step σ a = some (σ', o)) (hstart : a.startOf ≠ some t) :
    Silent t σ' := by
  intro u' hu'
  cases step_effect h hstart with
  | frame htimer hfiring =>
    rw [htimer] at hu'
    exact (hs u' hu').imp id fun hcb => ⟨hcb.1, fun hf => hcb.2 (hfiring hf)⟩
  | fresh u htimer harmed hrepeat =>
    rw [htimer] at hu'
    cases hu'
    exact Or.inr ⟨harmed, fun _ => hrepeat⟩
  | stopped u hbefore htimer hfiring =>
    rw [htimer] at hu'
    cases hu'
    refine (hs u hbefore).imp id fun hcb => ⟨rfl, fun hf => hcb.2 (hfiring ▸ hf)⟩
  | released htimer =>
    rw [htimer] at hu'
    cases hu'
  | expired u hbefore harmed hfiring hafter =>
    -- a silent timer that is armed has no callback
    obtain hcb | ⟨hcb, -⟩ := hs u hbefore
    · left
      rw [hafter, State.timerCb] at hu'
      simp only [hcb] at hu'
      rw [State.timerCbEnd_timers_self _ (State.store_timers_self _ _), Option.some.injEq] at hu'
      rw [← hu']
      split <;> exact hcb
    · exact absurd hcb harmed
  | returned u hbefore hfiring hafter =>
    rw [hafter, State.timerCbEnd_timers_self _ hbefore, Option.some.injEq] at hu'
    subst hu'
    obtain hcb | ⟨harmed, hrepeat⟩ := hs u hbefore
    · left
      split <;> exact hcb
    · right
      rw [if_neg (not_not.2 (hrepeat hfiring)), hafter]
      exact ⟨harmed, by simp⟩

end

/-- Silence lasts until the next start. -/
theorem silent_path {σ σ' : State} {tr : List Trans} {t : Timer} (h : Path machine σ tr σ')
    (hs : Silent t σ) (hstart : ∀ e ∈ tr, e.act.startOf ≠ some t) :
    ∀ e ∈ tr, ¬ Invokes t e := by
  refine (h.forall_iff (P := Silent t) (C := fun e => e.act.startOf ≠ some t)
    (R := fun _ => True) hstart hs ?_ ?_).2 fun _ _ => trivial
  · intro σ a σ' o hs hstep _
    refine iff_of_true ?_ trivial
    rintro ⟨cb, param, hout⟩
    dsimp only at hout
    subst hout
    obtain ⟨u, hu, harmed, hcb⟩ := step_called hstep
    obtain hnone | ⟨hnone, -⟩ := hs u hu
    · exact absurd (hcb.symm.trans hnone) (by simp)
    · exact harmed hnone
  · intro σ a σ' o hs hstep hC _
    exact silent_step hs hstep hC

/-- A stop leaves the timer unarmed, and nothing else changes. -/
theorem step_stop {σ σ' : State} {a : Act} {o : Answer} {t : Timer}
    (h : step σ a = some (σ', o)) (hstop : a.stopOf = some t) :
    ∃ u, σ.timers t = some u ∧ σ' = σ.store t (some u.uvTimerStop) := by
  cases a with
  | luatStopRtosTimer v =>
    cases hstop
    obtain ⟨u, hu, rfl, -⟩ := bind_timer h
    exact ⟨u, hu, rfl⟩
  | luatRtosTimerStop handle =>
    cases hstop
    obtain ⟨u, hu, rfl, -⟩ := bind_timer h
    exact ⟨u, hu, rfl⟩
  | _ => cases hstop

/-- A timer whose callback will arm it again can invoke the callback without a start: the
callback returns, and the time comes. -/
theorem WillRepeat.invokes {σ : State} {t : Timer} (h : WillRepeat t σ) :
    ∃ tr σ', Path machine σ tr σ' ∧ (∀ e ∈ tr, e.act.startOf ≠ some t) ∧ ∃ e ∈ tr, Invokes t e := by
  obtain ⟨hfiring, u, hu, hrepeat, hcb⟩ := h
  obtain ⟨cb, hcb⟩ := Option.ne_none_iff_exists'.1 hcb
  have hreturn : machine.step σ .callbackReturn = some (σ.timerCbEnd t u, .nothing) := by
    simp [machine, step, hfiring, hu]
  have hafter : (σ.timerCbEnd t u).timers t = some (u.uvTimerStart u.data.timeout) := by
    rw [State.timerCbEnd_timers_self σ hu, if_pos hrepeat]
  have hexpire : machine.step (σ.timerCbEnd t u) (.expire t) =
      some (((σ.timerCbEnd t u).timerCb t (u.uvTimerStart u.data.timeout)).1,
        .called t cb u.data.param) := by
    simp [machine, step, hafter, State.timerCb, UvTimer.uvTimerStart, hcb]
  refine ⟨_, _, (Path.nil.snoc hreturn).snoc hexpire, ?_, _, List.mem_append_right _
    (List.mem_singleton_self _), cb, u.data.param, rfl⟩
  simp [Act.startOf]

/-- **When a stop silences a timer.**  Whatever follows a stop, the callback of the timer is
not invoked before the next start, if and only if the stop does not come while the callback
itself is running and the timer repeats. -/
theorem stopped_timer_silent_iff {tr : List Trans} {σ : State} (h : Run machine tr σ)
    {pre post : List Trans} {c : Trans} (he : tr = pre ++ c :: post) {t : Timer}
    (hstop : c.act.stopOf = some t) :
    (∀ rest σ', Path machine c.dst rest σ' → (∀ e ∈ rest, e.act.startOf ≠ some t) →
      ∀ e ∈ rest, ¬ Invokes t e) ↔ ¬ WillRepeat t c.dst := by
  obtain ⟨u, hu, hdst⟩ := step_stop (h.split he).2 hstop
  constructor
  · intro hall hwill
    obtain ⟨rest, σ', hpath, hstart, e, hmem, hinv⟩ := hwill.invokes
    exact hall rest σ' hpath hstart e hmem hinv
  · intro hwill rest σ' hpath hstart
    refine silent_path hpath ?_ hstart
    intro u' hu'
    have hstopped : c.dst.timers t = some u.uvTimerStop := by
      rw [hdst]
      exact State.store_timers_self _ _
    rw [hstopped] at hu'
    cases hu'
    by_cases hcb : u.data.cb = none
    · exact Or.inl hcb
    · refine Or.inr ⟨rfl, ?_⟩
      intro hfiring
      by_contra hrepeat
      exact hwill ⟨hfiring, _, hstopped, hrepeat, hcb⟩

/-- Timer 5 is started as a repeating timer; its callback is done when the timer is stopped. -/
def stopOps : List Act :=
  [.luatRtosTimerCreate (some 5) true, .luatRtosTimerStart (some 5) 100 1 (some 7) none, .expire 5,
    .callbackReturn, .luatRtosTimerStop (some 5)]

theorem stopped_timer_silent_iff_outside :
    (machine.stateOf stopOps).firing = none ∧
      ∀ rest σ', Path machine (machine.stateOf stopOps) rest σ' →
        (∀ e ∈ rest, e.act.startOf ≠ some 5) → ∀ e ∈ rest, ¬ Invokes 5 e := by
  have h4 : 4 < (machine.traceOf stopOps).length := by decide
  refine ⟨by decide, (stopped_timer_silent_iff (Machine.run_exec (by decide))
    (Machine.traceOf_split h4) (t := 5) rfl).2 ?_⟩
  rintro ⟨hfiring, -⟩
  have hnone : (machine.stateOf stopOps).firing ≠ some 5 := by decide
  exact hnone hfiring

/-- The callback of a repeating timer stops its own timer. -/
def selfStopOps : List Act :=
  [.luatRtosTimerCreate (some 5) true, .luatRtosTimerStart (some 5) 100 1 (some 7) none, .expire 5,
    .luatRtosTimerStop (some 5), .callbackReturn, .expire 5]

/-- The stop returns 0, and the callback is invoked again without a start. -/
theorem timer_stopped_by_its_callback_fires :
    Run machine (machine.traceOf selfStopOps) (machine.stateOf selfStopOps) ∧
      (machine.traceOf selfStopOps).map Transition.out =
        [.ret 0, .ret 0, .called 5 7 none, .ret 0, .nothing, .called 5 7 none] :=
  ⟨Machine.run_exec (by decide), by decide⟩

end LuatosPc.Rtos.RtosTimer
