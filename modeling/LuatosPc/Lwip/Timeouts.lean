import Mathlib.Tactic
import LuatosPc.Base.Ledger
import LuatosPc.Base.Shadow

/-!
# Timeouts of the IP stack

The timer of the main loop calls `sys_check_timeouts` of `lwip/core/timeouts.c` every few
milliseconds.  All timers of the stack stand in one list, sorted by due time.  Times are
32 bits of milliseconds and wrap around after 49 days, so `TIME_LESS_THAN` compares by
the sign of the difference.

* `TimeOps` — the arithmetic of times; `u32` — the one of the source; `ideal` — without a
  bound.
* `insert`, `step`, `machine` — the functions of the source over either of them, one
  action of `sys_check_timeouts` and its handlers after the other.
* `Window` — all times in use lie within 2^31 milliseconds; `shadows` — as long as the
  main loop comes round once in 2^30 milliseconds, the source computes what it would
  compute without a bound.
* `timeouts_exact` — then timers run in the order of their due times, none too early, none
  twice, and none is lost.
-/

namespace LuatosPc
namespace Lwip
namespace Timeouts

/-- What the functions do with times. -/
structure TimeOps (τ : Type) where
  /-- `sys_now`, so many milliseconds after the start. -/
  now : Nat → τ
  add : τ → Nat → τ
  /-- `TIME_LESS_THAN`. -/
  less : τ → τ → Bool

/-- `u32_t`. -/
def u32 : TimeOps UInt32 where
  now := UInt32.ofNat
  add t d := t + UInt32.ofNat d
  less t c := 0x7fffffff < t - c

/-- Times without a bound. -/
def ideal : TimeOps Nat where
  now := id
  add t d := t + d
  less t c := t < c

/-- `struct sys_timeo`; `h` is the handler with its argument. -/
structure SysTimeo (τ H : Type) where
  time : τ
  h : H
  deriving DecidableEq

/-- Where `sys_check_timeouts` is, and when it began. -/
inductive Phase
  | idle
  /-- At the top of the loop. -/
  | loop (now : Nat)
  /-- In a handler. -/
  | handler (now : Nat)
  deriving DecidableEq

/-- The timeout list and the clock of the machine. -/
structure State (τ H : Type) where
  /-- The list from `next_timeout` on. -/
  timeouts : List (SysTimeo τ H)
  /-- `current_timeout_due_time`. -/
  dueTime : τ
  phase : Phase
  /-- Milliseconds since the start. -/
  clock : Nat
  /-- When the last complete `sys_check_timeouts` began. -/
  checked : Nat
  deriving DecidableEq

/-- One action. -/
inductive Op (H : Type)
  /-- Time passes. -/
  | tick (d : Nat)
  /-- `sys_timeout`. -/
  | timeout (msecs : Nat) (h : H)
  /-- `sys_untimeout`. -/
  | untimeout (h : H)
  /-- `sys_check_timeouts` begins. -/
  | check
  /-- It takes the first timer off the list and calls the handler. -/
  | fire
  /-- The handler returns. -/
  | ret
  /-- `lwip_cyclic_timer`, behind the call of the handler. -/
  | cyclic (interval : Nat) (h : H)
  /-- It finds no timer that has expired. -/
  | finish
  deriving DecidableEq

section Model

variable {τ H : Type} [DecidableEq H] (T : TimeOps τ)

/-- The loop of `sys_timeout_abs`: behind the timers that are not due later. -/
def insert (t : SysTimeo τ H) : List (SysTimeo τ H) → List (SysTimeo τ H)
  | [] => [t]
  | n :: rest => if T.less t.time n.time then t :: n :: rest else n :: insert t rest

/-- `sys_timeout_abs`.  There are `pool` timers; the process is aborted if none is left. -/
def sysTimeoutAbs (pool : Nat) (σ : State τ H) (absTime : τ) (h : H) : Option (State τ H) :=
  if pool ≤ σ.timeouts.length then none
  else some { σ with timeouts := insert T ⟨absTime, h⟩ σ.timeouts }

/-- One action, with the handler that is called. -/
def step (pool : Nat) (σ : State τ H) : Op H → Option (State τ H × Option H)
  | .tick d => some ({ σ with clock := σ.clock + d }, none)
  | .timeout msecs h =>
    -- "Timeout time too long, max is LWIP_UINT32_MAX/4 msecs"
    if 0xffffffff / 4 < msecs then none
    else (sysTimeoutAbs T pool σ (T.add (T.now σ.clock) msecs) h).map (·, none)
  | .untimeout h =>
    some ({ σ with timeouts := σ.timeouts.eraseP fun t => t.h = h }, none)
  | .check =>
    match σ.phase with
    | .idle => some ({ σ with phase := .loop σ.clock }, none)
    | _ => none
  | .fire =>
    match σ.phase, σ.timeouts with
    | .loop n, t :: rest =>
      if T.less (T.now n) t.time then none
      else
        some ({ σ with timeouts := rest, dueTime := t.time, phase := .handler n }, some t.h)
    | _, _ => none
  | .ret =>
    match σ.phase with
    | .handler n => some ({ σ with phase := .loop n }, none)
    | _ => none
  | .cyclic interval h =>
    match σ.phase with
    | .handler _ =>
      let next := T.add σ.dueTime interval
      if T.less next (T.now σ.clock) then
        -- the timer would expire again at once
        (sysTimeoutAbs T pool σ (T.add (T.now σ.clock) interval) h).map (·, none)
      else (sysTimeoutAbs T pool σ next h).map (·, none)
    | _ => none
  | .finish =>
    match σ.phase with
    | .loop n =>
      if σ.timeouts.head?.all fun t => T.less (T.now n) t.time then
        some ({ σ with phase := .idle, checked := n }, none)
      else none
    | _ => none

/-- The timeouts from the start of the process on. -/
def machine (H : Type) [DecidableEq H] (pool : Nat) :
    Machine (State τ H) (Op H) (Option H) where
  init := ⟨[], T.now 0, .idle, 0, 0⟩
  step := step T pool

end Model

/-! ## Times in a window -/

/-- The times as the source has them. -/
def SysTimeo.wrap {H : Type} (t : SysTimeo Nat H) : SysTimeo UInt32 H := ⟨UInt32.ofNat t.time, t.h⟩

/-- The state as the source has it. -/
def State.wrap {H : Type} (ι : State Nat H) : State UInt32 H :=
  { ι with timeouts := ι.timeouts.map SysTimeo.wrap, dueTime := UInt32.ofNat ι.dueTime }

/-- Half of the times from `c` on. -/
def Near (c t : Nat) : Prop := c ≤ t ∧ t < c + 2 ^ 31

/-- Within half of all times the sign of the difference decides. -/
theorem less_ofNat {c a b : Nat} (ha : Near c a) (hb : Near c b) :
    u32.less (UInt32.ofNat a) (UInt32.ofNat b) = ideal.less a b := by
  obtain ⟨ha, ha'⟩ := ha
  obtain ⟨hb, hb'⟩ := hb
  simp only [u32, ideal, decide_eq_decide, UInt32.lt_iff_toNat_lt, UInt32.toNat_sub,
    UInt32.toNat_ofNat']
  change 2147483647 < _ ↔ _
  omega

variable {H : Type}

theorem map_insert {c : Nat} {t : SysTimeo Nat H} {l : List (SysTimeo Nat H)} (ht : Near c t.time)
    (hl : ∀ n ∈ l, Near c n.time) :
    insert u32 t.wrap (l.map SysTimeo.wrap) = (insert ideal t l).map SysTimeo.wrap := by
  induction l with
  | nil => rfl
  | cons n rest ih =>
    have hn := hl n List.mem_cons_self
    rw [List.map_cons, insert, insert]
    change (if u32.less (UInt32.ofNat t.time) (UInt32.ofNat n.time) then _ else _) = _
    rw [less_ofNat ht hn, ih fun m hm => hl m (List.mem_cons_of_mem n hm)]
    split <;> rfl

/-- A timer more, and nothing else. -/
theorem insert_perm (t : SysTimeo Nat H) (l : List (SysTimeo Nat H)) :
    (insert ideal t l).Perm (t :: l) := by
  induction l with
  | nil => exact .refl _
  | cons n rest ih =>
    rw [insert]
    split
    · exact .refl _
    · exact (ih.cons n).trans (.swap t n rest)

/-- The order of due times. -/
def Sorted (l : List (SysTimeo Nat H)) : Prop := l.Pairwise fun t u => t.time ≤ u.time

theorem sorted_insert {t : SysTimeo Nat H} {l : List (SysTimeo Nat H)} (hl : Sorted l) :
    Sorted (insert ideal t l) := by
  induction l with
  | nil => exact List.pairwise_singleton _ _
  | cons n rest ih =>
    obtain ⟨hn, hrest⟩ := List.pairwise_cons.1 hl
    rw [insert]
    by_cases hlt : t.time < n.time
    · rw [if_pos (by simpa [ideal] using hlt)]
      refine List.pairwise_cons.2 ⟨fun u hu => ?_, hl⟩
      obtain rfl | hu := List.mem_cons.1 hu
      · exact hlt.le
      · exact hlt.le.trans (hn u hu)
    · rw [if_neg (by simpa [ideal] using hlt)]
      refine List.pairwise_cons.2 ⟨fun u hu => ?_, ih hrest⟩
      obtain rfl | hu := List.mem_cons.1 ((insert_perm t rest).mem_iff.1 hu)
      · exact not_lt.1 hlt
      · exact hn u hu

/-- Where `sys_check_timeouts` can be. -/
def PhaseOk (ι : State Nat H) : Prop :=
  match ι.phase with
  | .idle => True
  | .loop n => ι.checked ≤ n ∧ n ≤ ι.clock
  | .handler n => ι.checked ≤ n ∧ n ≤ ι.clock ∧ ι.checked ≤ ι.dueTime ∧ ι.dueTime ≤ n

/-- All times in use are close to each other, and the list is sorted. -/
structure Window (ι : State Nat H) : Prop where
  checked : ι.checked ≤ ι.clock
  clock : ι.clock ≤ ι.checked + 2 ^ 30
  timeouts : ∀ t ∈ ι.timeouts, ι.checked ≤ t.time ∧ t.time < ι.clock + 2 ^ 30
  sorted : Sorted ι.timeouts
  phase : PhaseOk ι

variable {ι ι' : State Nat H} {pool : Nat}

theorem Window.near_timeouts (hw : Window ι) {t : SysTimeo Nat H} (ht : t ∈ ι.timeouts) :
    Near ι.checked t.time := by
  have hclock := hw.clock
  have htime := hw.timeouts t ht
  exact ⟨htime.1, by omega⟩

theorem Window.near_of_le (hw : Window ι) {a : Nat} (h₁ : ι.checked ≤ a)
    (h₂ : a < ι.clock + 2 ^ 30) : Near ι.checked a := by
  have hclock := hw.clock
  exact ⟨h₁, by omega⟩

/-- `sys_timeout_abs` for a time in the window. -/
theorem sysTimeoutAbs_wrap (hw : Window ι) {a : Nat} (h₁ : ι.checked ≤ a)
    (h₂ : a < ι.clock + 2 ^ 30) (h : H) :
    sysTimeoutAbs u32 pool ι.wrap (UInt32.ofNat a) h =
      (sysTimeoutAbs ideal pool ι a h).map State.wrap := by
  have hins := map_insert (t := ⟨a, h⟩) (hw.near_of_le h₁ h₂) fun n hn => hw.near_timeouts hn
  simp only [sysTimeoutAbs, State.wrap, List.length_map]
  split
  · rfl
  · rw [Option.map_some, State.wrap, ← hins]
    rfl

theorem Window.sysTimeoutAbs (hw : Window ι) {a : Nat} (h₁ : ι.checked ≤ a)
    (h₂ : a < ι.clock + 2 ^ 30) {h : H}
    (hs : Timeouts.sysTimeoutAbs ideal pool ι a h = some ι') :
    ι' = { ι with timeouts := insert ideal ⟨a, h⟩ ι.timeouts } ∧ Window ι' := by
  unfold Timeouts.sysTimeoutAbs at hs
  split at hs
  · cases hs
  · obtain rfl := Option.some.inj hs
    refine ⟨rfl, hw.checked, hw.clock, fun t ht => ?_, sorted_insert hw.sorted, hw.phase⟩
    obtain rfl | ht := List.mem_cons.1 ((insert_perm _ _).mem_iff.1 ht)
    · exact ⟨h₁, h₂⟩
    · exact hw.timeouts t ht

/-! ## The source computes what it would compute without a bound -/

/-- The main loop comes round once in 2^30 milliseconds, and intervals are shorter. -/
def Timely {τ : Type} (e : Transition (State τ H) (Op H) (Option H)) : Prop :=
  match e.act with
  | .tick d => e.src.clock + d ≤ e.src.checked + 2 ^ 30
  | .cyclic interval _ => interval < 2 ^ 30
  | _ => True

instance {τ : Type} : DecidablePred (Timely (τ := τ) (H := H))
  | ⟨_, .tick _, _, _⟩ => inferInstanceAs (Decidable (_ ≤ _))
  | ⟨_, .cyclic _ _, _, _⟩ => inferInstanceAs (Decidable (_ < _))
  | ⟨_, .timeout _ _, _, _⟩ | ⟨_, .untimeout _, _, _⟩ | ⟨_, .check, _, _⟩ | ⟨_, .fire, _, _⟩
  | ⟨_, .ret, _, _⟩ | ⟨_, .finish, _, _⟩ => isTrue trivial

/-- While `sys_check_timeouts` runs, the time at which it began is in the window. -/
theorem Window.near_now (hw : Window ι) {n : Nat}
    (hphase : ι.phase = .loop n ∨ ι.phase = .handler n) : Near ι.checked n := by
  have hp := hw.phase
  have hclock := hw.clock
  unfold PhaseOk at hp
  rcases hphase with h | h <;> rw [h] at hp <;> exact ⟨hp.1, by omega⟩

/-- When the timer of `lwip_cyclic_timer` is due. -/
def cyclicDue (ι : State Nat H) (interval : Nat) : Nat :=
  if ι.dueTime + interval < ι.clock then ι.clock + interval else ι.dueTime + interval

theorem Window.cyclicDue (hw : Window ι) {n interval : Nat} (hphase : ι.phase = .handler n)
    (hi : interval < 2 ^ 30) :
    ι.checked ≤ Timeouts.cyclicDue ι interval ∧
      Timeouts.cyclicDue ι interval < ι.clock + 2 ^ 30 := by
  have hp := hw.phase
  rw [PhaseOk, hphase] at hp
  have hc := hw.checked
  unfold Timeouts.cyclicDue
  split <;> omega

variable [DecidableEq H] {op : Op H} {o : Option H}

/-- `lwip_cyclic_timer` schedules one timer. -/
theorem step_cyclic {τ : Type} {T : TimeOps τ} {σ : State τ H} {n interval : Nat} {h : H}
    (hphase : σ.phase = .handler n) :
    step T pool σ (.cyclic interval h) =
      (sysTimeoutAbs T pool σ
        (if T.less (T.add σ.dueTime interval) (T.now σ.clock) then T.add (T.now σ.clock) interval
          else T.add σ.dueTime interval) h).map (·, none) := by
  simp only [step, hphase]
  split <;> rfl

theorem step_cyclic_ideal {n interval : Nat} {h : H} (hphase : ι.phase = .handler n) :
    step ideal pool ι (.cyclic interval h) =
      (sysTimeoutAbs ideal pool ι (cyclicDue ι interval) h).map (·, none) := by
  rw [step_cyclic hphase, cyclicDue]
  simp only [ideal, decide_eq_true_eq, id]

theorem step_wrap (hw : Window ι) (ht : ∀ interval h, op = .cyclic interval h → interval < 2 ^ 30) :
    step u32 pool ι.wrap op = (step ideal pool ι op).map fun p => (p.1.wrap, p.2) := by
  have hadd : ∀ a d, u32.add (UInt32.ofNat a) d = UInt32.ofNat (a + d) := fun a d =>
    (UInt32.ofNat_add a d).symm
  have hc := hw.checked
  cases op with
  | tick d => rfl
  | timeout msecs h =>
    simp only [step]
    split
    · rfl
    · change Option.map _ (sysTimeoutAbs u32 pool ι.wrap
        (u32.add (UInt32.ofNat ι.clock) msecs) h) = _
      rw [hadd, sysTimeoutAbs_wrap hw (by omega) (by omega), Option.map_map, Option.map_map]
      rfl
  | untimeout h =>
    simp only [step, State.wrap, Option.map_some, List.eraseP_map]
    rfl
  | check =>
    simp only [step, State.wrap]
    split <;> rfl
  | fire =>
    cases hphase : ι.phase with
    | idle => simp only [step, State.wrap, hphase, Option.map_none]
    | handler n => simp only [step, State.wrap, hphase, Option.map_none]
    | loop n =>
      cases hlist : ι.timeouts with
      | nil => simp only [step, State.wrap, hphase, hlist, List.map_nil, Option.map_none]
      | cons t rest =>
        have hless : u32.less (UInt32.ofNat n) (UInt32.ofNat t.time) = ideal.less n t.time :=
          less_ofNat (hw.near_now (.inl hphase)) (hw.near_timeouts (by simp [hlist]))
        simp only [step, State.wrap, hphase, hlist, List.map_cons, SysTimeo.wrap]
        change (if u32.less (UInt32.ofNat n) (UInt32.ofNat t.time) then _ else _) = _
        rw [hless]
        change _ = Option.map _ (if ideal.less n t.time then _ else _)
        split <;> rfl
  | ret =>
    simp only [step, State.wrap]
    split <;> rfl
  | cyclic interval h =>
    have hi := ht interval h rfl
    cases hphase : ι.phase with
    | idle => simp only [step, State.wrap, hphase, Option.map_none]
    | loop n => simp only [step, State.wrap, hphase, Option.map_none]
    | handler n =>
      have hp := hw.phase
      rw [PhaseOk, hphase] at hp
      have hless : u32.less (UInt32.ofNat (ι.dueTime + interval)) (UInt32.ofNat ι.clock) =
          ideal.less (ι.dueTime + interval) ι.clock :=
        less_ofNat (hw.near_of_le (by omega) (by omega)) (hw.near_of_le hc (by omega))
      have hdue : (if u32.less (UInt32.ofNat (ι.dueTime + interval)) (UInt32.ofNat ι.clock) then
          UInt32.ofNat (ι.clock + interval) else UInt32.ofNat (ι.dueTime + interval)) =
          UInt32.ofNat (cyclicDue ι interval) := by
        rw [hless, cyclicDue]
        simp only [ideal, decide_eq_true_eq]
        split <;> rfl
      obtain ⟨h₁, h₂⟩ := hw.cyclicDue hphase hi
      rw [step_cyclic_ideal hphase, step_cyclic (σ := ι.wrap) hphase, Option.map_map]
      change Option.map _ (sysTimeoutAbs u32 pool ι.wrap (if u32.less
        (u32.add (UInt32.ofNat ι.dueTime) interval) (UInt32.ofNat ι.clock) then
          u32.add (UInt32.ofNat ι.clock) interval
        else u32.add (UInt32.ofNat ι.dueTime) interval) h) = _
      rw [hadd, hadd, hdue, sysTimeoutAbs_wrap hw h₁ h₂, Option.map_map]
      rfl
  | finish =>
    cases hphase : ι.phase with
    | idle => simp only [step, State.wrap, hphase, Option.map_none]
    | handler n => simp only [step, State.wrap, hphase, Option.map_none]
    | loop n =>
      have hhead : (ι.wrap.timeouts.head?.all fun t => u32.less (u32.now n) t.time) =
          ι.timeouts.head?.all fun t => ideal.less (ideal.now n) t.time := by
        cases hlist : ι.timeouts with
        | nil => simp [State.wrap, hlist]
        | cons t rest =>
          simp only [State.wrap, hlist, List.map_cons, List.head?_cons, Option.all_some]
          exact less_ofNat (hw.near_now (.inl hphase)) (hw.near_timeouts (by simp [hlist]))
      have hwphase : ι.wrap.phase = .loop n := hphase
      simp only [step, hphase, hwphase, hhead]
      split <;> rfl

theorem step_fire (hs : step ideal pool ι .fire = some (ι', o)) :
    ∃ n t rest, ι.phase = .loop n ∧ ι.timeouts = t :: rest ∧ t.time ≤ n ∧ o = some t.h ∧
      ι' = { ι with timeouts := rest, dueTime := t.time, phase := .handler n } := by
  simp only [step] at hs
  split at hs
  case h_1 n t rest hphase hlist =>
    split at hs
    · cases hs
    case isFalse hless =>
      obtain ⟨rfl, rfl⟩ := Prod.mk.inj (Option.some.inj hs)
      have hdue : ¬ n < t.time := by simpa [ideal] using hless
      exact ⟨n, t, rest, hphase, hlist, not_lt.1 hdue, rfl, rfl⟩
  case h_2 => cases hs

theorem step_ret (hs : step ideal pool ι .ret = some (ι', o)) :
    ∃ n, ι.phase = .handler n ∧ ι' = { ι with phase := .loop n } := by
  simp only [step] at hs
  split at hs
  case h_1 n hphase => exact ⟨n, hphase, (Prod.mk.inj (Option.some.inj hs)).1.symm⟩
  case h_2 => cases hs

/-- A check that is over leaves no timer that was due when it began. -/
theorem step_finish (hsorted : Sorted ι.timeouts)
    (hs : step ideal pool ι .finish = some (ι', o)) :
    ∃ n, ι.phase = .loop n ∧ (∀ t ∈ ι.timeouts, n < t.time) ∧
      ι' = { ι with phase := .idle, checked := n } := by
  simp only [step] at hs
  split at hs
  case h_2 => cases hs
  case h_1 n hphase =>
    split at hs
    case isFalse => cases hs
    case isTrue hhead =>
      refine ⟨n, hphase, ?_, (Prod.mk.inj (Option.some.inj hs)).1.symm⟩
      cases hlist : ι.timeouts with
      | nil => simp
      | cons t rest =>
        have hfirst : n < t.time := by simpa [hlist, ideal] using hhead
        have hrest := (List.pairwise_cons.1 (hlist ▸ hsorted)).1
        intro u hu
        obtain rfl | hu := List.mem_cons.1 hu
        · exact hfirst
        · exact hfirst.trans_le (hrest u hu)

/-- What is scheduled lies in the window. -/
theorem step_schedules (hw : Window ι) (hs : step ideal pool ι op = some (ι', o))
    (ht : Timely ⟨ι, op, o, ι'⟩) {h : H} {a : Nat}
    (hop : (∃ msecs, op = .timeout msecs h ∧ a = ι.clock + msecs) ∨
      ∃ interval, op = .cyclic interval h ∧ a = cyclicDue ι interval) :
    ι' = { ι with timeouts := insert ideal ⟨a, h⟩ ι.timeouts } ∧ Window ι' := by
  have hc := hw.checked
  obtain ⟨msecs, rfl, rfl⟩ | ⟨interval, rfl, rfl⟩ := hop
  · simp only [step] at hs
    split at hs
    · cases hs
    · obtain ⟨ι₁, hι, he⟩ := Option.map_eq_some_iff.1 hs
      obtain ⟨rfl, rfl⟩ := Prod.mk.inj he
      exact hw.sysTimeoutAbs (hc.trans (Nat.le_add_right _ _)) (by omega) hι
  · cases hphase : ι.phase with
    | idle => simp [step, hphase] at hs
    | loop n => simp [step, hphase] at hs
    | handler n =>
      rw [step_cyclic_ideal hphase] at hs
      obtain ⟨ι₁, hι, he⟩ := Option.map_eq_some_iff.1 hs
      obtain ⟨rfl, rfl⟩ := Prod.mk.inj he
      obtain ⟨h₁, h₂⟩ := hw.cyclicDue hphase ht
      rw [← hphase]
      exact hw.sysTimeoutAbs h₁ h₂ hι

theorem step_window (hw : Window ι) (hs : step ideal pool ι op = some (ι', o))
    (ht : Timely ⟨ι, op, o, ι'⟩) : Window ι' := by
  have hc := hw.checked
  have hp := hw.phase
  cases op with
  | tick d =>
    cases hs
    refine ⟨hc.trans (Nat.le_add_right _ d), ht, fun t htm => ?_, hw.sorted, ?_⟩
    · have htime := hw.timeouts t htm
      exact ⟨htime.1, htime.2.trans_le (by simp only; omega)⟩
    · unfold PhaseOk at hp ⊢
      cases hphase : ι.phase with
      | idle => trivial
      | loop n =>
        rw [hphase] at hp
        exact ⟨hp.1, hp.2.trans (Nat.le_add_right _ d)⟩
      | handler n =>
        rw [hphase] at hp
        exact ⟨hp.1, hp.2.1.trans (Nat.le_add_right _ d), hp.2.2⟩
  | timeout msecs h => exact (step_schedules hw hs ht (.inl ⟨msecs, rfl, rfl⟩)).2
  | cyclic interval h => exact (step_schedules hw hs ht (.inr ⟨interval, rfl, rfl⟩)).2
  | untimeout h =>
    cases hs
    refine ⟨hc, hw.clock, fun t htm => hw.timeouts t (List.mem_of_mem_eraseP htm), ?_, hp⟩
    exact hw.sorted.sublist List.eraseP_sublist
  | check =>
    simp only [step] at hs
    split at hs <;> cases hs
    exact ⟨hc, hw.clock, hw.timeouts, hw.sorted, hc, le_rfl⟩
  | fire =>
    obtain ⟨n, t, rest, hphase, hlist, hdue, -, rfl⟩ := step_fire hs
    rw [PhaseOk, hphase] at hp
    have htime := hw.timeouts t (by simp [hlist])
    refine ⟨hc, hw.clock, fun u hu => hw.timeouts u (by simp [hlist, hu]), ?_, ?_⟩
    · exact (List.pairwise_cons.1 (hlist ▸ hw.sorted)).2
    · exact ⟨hp.1, hp.2, htime.1, hdue⟩
  | ret =>
    obtain ⟨n, hphase, rfl⟩ := step_ret hs
    rw [PhaseOk, hphase] at hp
    exact ⟨hc, hw.clock, hw.timeouts, hw.sorted, hp.1, hp.2.1⟩
  | finish =>
    obtain ⟨n, hphase, hall, rfl⟩ := step_finish hw.sorted hs
    rw [PhaseOk, hphase] at hp
    have hclock := hw.clock
    refine ⟨hp.2, by simp only; omega, fun t htm => ?_, hw.sorted, trivial⟩
    exact ⟨(hall t htm).le, (hw.timeouts t htm).2⟩

/-- The source does what it would do without a bound. -/
theorem shadows (pool : Nat) :
    (machine u32 H pool).Shadows (machine ideal H pool) State.wrap Window Timely where
  init := rfl
  inv := ⟨le_rfl, Nat.zero_le _, nofun, .nil, trivial⟩
  step := by
    intro ι op σ o hw hs ht
    have hi : ∀ interval h, op = .cyclic interval h → interval < 2 ^ 30 := by
      rintro interval h rfl
      exact ht
    change step u32 pool ι.wrap op = some (σ, o) at hs
    rw [step_wrap hw hi] at hs
    obtain ⟨⟨ι', o'⟩, hs', he⟩ := Option.map_eq_some_iff.1 hs
    obtain ⟨rfl, rfl⟩ := Prod.mk.inj he
    exact ⟨ι', hs', rfl, step_window hw hs' ht⟩

/-! ## Over every run -/

/-- A transition with unbounded times. -/
abbrev Trans (H : Type) := Transition (State Nat H) (Op H) (Option H)

/-- The timer that a transition puts on the list. -/
def scheduled (e : Trans H) : Multiset (SysTimeo Nat H) :=
  match e.act with
  | .timeout msecs h => {⟨e.src.clock + msecs, h⟩}
  | .cyclic interval h => {⟨cyclicDue e.src interval, h⟩}
  | _ => 0

/-- The timer that a transition takes off the list, to run it or because it is cancelled. -/
def taken (e : Trans H) : Multiset (SysTimeo Nat H) :=
  match e.act with
  | .fire => (e.src.timeouts.take 1 : List _)
  | .untimeout h => ((e.src.timeouts.find? fun t => t.h = h).toList : List _)
  | _ => 0

/-- The timer that runs is due, no other timer is due before it, and its handler is
called. -/
def InOrder (e : Trans H) : Prop :=
  e.act = .fire → ∃ t rest, e.src.timeouts = t :: rest ∧ e.out = some t.h ∧
    t.time ≤ e.src.clock ∧ ∀ u ∈ rest, t.time ≤ u.time

/-- A check leaves no timer that was due when it began. -/
def Complete (e : Trans H) : Prop :=
  e.act = .finish → ∀ n, e.src.phase = .loop n → ∀ t ∈ e.src.timeouts, n < t.time

omit [DecidableEq H] in
/-- The first match and the others. -/
theorem find_append_eraseP (p : SysTimeo Nat H → Bool) (l : List (SysTimeo Nat H)) :
    ((l.find? p).toList ++ l.eraseP p).Perm l := by
  induction l with
  | nil => exact .nil
  | cons t rest ih =>
    by_cases hp : p t = true
    · simp [hp]
    · rw [List.find?_cons_of_neg hp, List.eraseP_cons_of_neg hp]
      exact List.perm_middle.trans (ih.cons t)

theorem step_books (hw : Window ι) (hs : step ideal pool ι op = some (ι', o))
    (ht : Timely ⟨ι, op, o, ι'⟩) :
    taken ⟨ι, op, o, ι'⟩ + (ι'.timeouts : Multiset _) =
      (ι.timeouts : Multiset _) + scheduled ⟨ι, op, o, ι'⟩ := by
  have hinsert : ∀ t : SysTimeo Nat H, ((insert ideal t ι.timeouts : List _) : Multiset _) =
      (ι.timeouts : Multiset _) + {t} := by
    intro t
    rw [Multiset.coe_eq_coe.2 (insert_perm t ι.timeouts), ← Multiset.cons_coe, add_comm,
      Multiset.singleton_add]
  cases op with
  | tick d =>
    cases hs
    simp [taken, scheduled]
  | timeout msecs h =>
    obtain ⟨rfl, -⟩ := step_schedules hw hs ht (.inl ⟨msecs, rfl, rfl⟩)
    simpa [taken, scheduled] using hinsert _
  | cyclic interval h =>
    obtain ⟨rfl, -⟩ := step_schedules hw hs ht (.inr ⟨interval, rfl, rfl⟩)
    simpa [taken, scheduled] using hinsert _
  | untimeout h =>
    cases hs
    simp only [taken, scheduled, add_zero, Multiset.coe_add, Multiset.coe_eq_coe]
    exact find_append_eraseP _ _
  | check =>
    simp only [step] at hs
    split at hs <;> cases hs
    simp [taken, scheduled]
  | fire =>
    obtain ⟨n, t, rest, -, hlist, -, -, rfl⟩ := step_fire hs
    simp [taken, scheduled, hlist]
  | ret =>
    obtain ⟨n, -, rfl⟩ := step_ret hs
    simp [taken, scheduled]
  | finish =>
    obtain ⟨n, -, -, rfl⟩ := step_finish hw.sorted hs
    simp [taken, scheduled]

section Runs

variable {tr : List (Trans H)}

theorem run_window (h : Run (machine ideal H pool) tr ι) (ht : ∀ e ∈ tr, Timely e) :
    (∀ e ∈ tr, Window e.src) ∧ Window ι := by
  refine h.toPath.history_invariant
    (I := fun tr ι => (∀ e ∈ tr, Window e.src) ∧ Window ι) ht
    ⟨nofun, (shadows pool).inv⟩ ?_
  rintro tr s a s' o ⟨hall, hw⟩ hs htimely
  refine ⟨fun e he => ?_, step_window hw hs htimely⟩
  obtain he | he := List.mem_append.1 he
  · exact hall e he
  · rw [List.mem_singleton.1 he]
    exact hw

theorem inOrder_of_step (hw : Window ι) (hs : step ideal pool ι op = some (ι', o)) :
    InOrder ⟨ι, op, o, ι'⟩ := by
  rintro rfl
  obtain ⟨n, t, rest, hphase, hlist, hdue, hout, -⟩ := step_fire hs
  have hp := hw.phase
  rw [PhaseOk, hphase] at hp
  exact ⟨t, rest, hlist, hout, hdue.trans hp.2, (List.pairwise_cons.1 (hlist ▸ hw.sorted)).1⟩

theorem complete_of_step (hw : Window ι) (hs : step ideal pool ι op = some (ι', o)) :
    Complete ⟨ι, op, o, ι'⟩ := by
  rintro rfl n hn
  obtain ⟨n', hphase, hall, -⟩ := step_finish hw.sorted hs
  obtain rfl : n' = n := Phase.loop.inj (hphase.symm.trans hn)
  exact hall

/-- **Timers are exact.**  In every run of the timeout list of the source in which the
main loop comes round once in 2^30 milliseconds, whatever handlers and others schedule
and cancel, the list is the list of due times without a bound, in their order; a timer
that runs is due, and none is due before it; a check that is over leaves none that was
due when it began; and the timers that have been scheduled are those that have run or
been cancelled, once each, and those on the list. -/
theorem timeouts_exact {real : List (Transition (State UInt32 H) (Op H) (Option H))}
    {σ : State UInt32 H} (h : Run (machine u32 H pool) real σ) (ht : ∀ e ∈ real, Timely e) :
    ∃ tr ι, Run (machine ideal H pool) tr ι ∧ real = tr.map (Transition.image State.wrap) ∧
      σ = ι.wrap ∧ Sorted ι.timeouts ∧
      (∀ e ∈ tr, InOrder e) ∧ (∀ e ∈ tr, Complete e) ∧
      (tr.map taken).sum + (ι.timeouts : Multiset _) = (tr.map scheduled).sum := by
  obtain ⟨tr, ι, hrun, rfl, rfl, hw⟩ := (shadows pool).run h ht
  have htimely : ∀ e ∈ tr, Timely e := fun e he => ht _ (List.mem_map_of_mem he)
  have hsrc := (run_window hrun htimely).1
  refine ⟨tr, ι, hrun, rfl, rfl, hw.sorted, fun e he => ?_, fun e he => ?_, ?_⟩
  · exact inOrder_of_step (hsrc e he) (hrun.step_of_mem he)
  · exact complete_of_step (hsrc e he) (hrun.step_of_mem he)
  · have hbooks := hrun.toPath.ledger (w := fun ι => (↑ι.timeouts : Multiset (SysTimeo Nat H)))
      (C := fun e => Window e.src ∧ Timely e) (fun e he => ⟨hsrc e he, htimely e he⟩)
      fun t a t' o hs hC => step_books hC.1 hs hC.2
    simpa [machine] using hbooks

end Runs

/-- Timers across the wrap of the clock: 50 milliseconds before it one is set for 100 and
then one for 10 milliseconds, and both run after it. -/
def acrossWrap : List (Op Nat) :=
  [.tick (2 ^ 30), .check, .finish, .tick (2 ^ 30), .check, .finish, .tick (2 ^ 30), .check,
    .finish, .tick (2 ^ 30 - 50), .timeout 100 1, .timeout 10 2, .check, .finish, .tick 200, .check,
    .fire, .ret, .fire]

theorem timeouts_exact_acrossWrap :
    ((machine u32 Nat 17).traceOf acrossWrap).filterMap (fun e => e.out) = [2, 1] ∧
    ∃ tr ι, Run (machine ideal Nat 17) tr ι ∧
      (machine u32 Nat 17).traceOf acrossWrap = tr.map (Transition.image State.wrap) ∧
      (∀ e ∈ tr, InOrder e) := by
  have hexec : ((machine u32 Nat 17).exec (machine u32 Nat 17).init acrossWrap).isSome = true := by
    decide +kernel
  have ht : ∀ e ∈ (machine u32 Nat 17).traceOf acrossWrap, Timely e := by decide +kernel
  obtain ⟨tr, ι, hrun, himage, -, -, horder, -⟩ := timeouts_exact (Machine.run_exec hexec) ht
  exact ⟨by decide +kernel, tr, ι, hrun, himage, horder⟩

end Timeouts
end Lwip
end LuatosPc
