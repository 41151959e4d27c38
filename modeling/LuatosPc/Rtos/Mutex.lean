import Mathlib.Algebra.BigOperators.Group.Finset.Basic
import Mathlib.Algebra.BigOperators.Pi
import LuatosPc.Base.Machine

/-!
# The mutex of the port, under every interleaving

`port/rtos/luat_rtos_mutex_pc.c` puts a counter beside a `uv_mutex_t`: `luat_mutex_lock`
adds one to it, `luat_mutex_unlock` takes one away, and refuses with -2 when it reads 0.
The addition is made while the mutex is held, the subtraction after it has been given
back; neither is atomic.  This module runs the calls of any number of threads against
each other, one access to memory at a time.

* `Pc` — how far a thread has come; `PcMutex` — the `pc_mutex_t` and all its threads.
* `lockCount_eq` — as long as no store of the counter overwrites another thread's, the
  counter is the number of threads that have entered and not yet counted themselves out,
  and no holder's `luat_mutex_unlock` is refused.
* `exists_stuck` — but any two threads can bring the mutex into a state in which it is
  held, its holder cannot give it back, and nobody ever gets it again.
-/

namespace LuatosPc
namespace Rtos
namespace Mutex

/-- How far a thread has come in its calls; `v` is the value of `lock` that it has
loaded. -/
inductive Pc
  /-- Not between a `luat_mutex_lock` and the end of a `luat_mutex_unlock`. -/
  | out
  /-- `uv_mutex_lock` has returned. -/
  | entered
  /-- `m->lock ++` has loaded. -/
  | loadedInc (v : Int)
  /-- `luat_mutex_lock` has returned 0. -/
  | holds
  /-- `luat_mutex_unlock` has found `m->lock` not to be 0. -/
  | passed
  /-- `uv_mutex_unlock` has returned. -/
  | left
  /-- `m->lock --` has loaded. -/
  | loadedDec (v : Int)
  deriving DecidableEq

/-- A `pc_mutex_t` and its threads. -/
structure PcMutex (T : Type) where
  /-- Who has locked `m`, the `uv_mutex_t`. -/
  owner : Option T
  lock : Int
  pc : T → Pc

/-- One access to the mutex or to the counter by a thread. -/
inductive Op (T : Type)
  | uvLock (t : T)
  | loadInc (t : T)
  | storeInc (t : T)
  | check (t : T)
  | uvUnlock (t : T)
  | loadDec (t : T)
  | storeDec (t : T)
  deriving DecidableEq

variable {T : Type} [DecidableEq T]

/-- `luat_mutex_create`. -/
def luatMutexCreate : PcMutex T := ⟨none, 0, fun _ => .out⟩

/-- Thread `t` goes on. -/
def PcMutex.goto (m : PcMutex T) (t : T) (c : Pc) : PcMutex T :=
  { m with pc := Function.update m.pc t c }

/-- One access, with the value that the call returns if it ends here.  `uv_mutex_lock`
waits while the mutex is locked; `uv_mutex_unlock` is undefined for anyone but its
owner. -/
def step (m : PcMutex T) : Op T → Option (PcMutex T × Option Int)
  | .uvLock t =>
    if m.pc t = .out ∧ m.owner = none then some ({ m with owner := some t }.goto t .entered, none)
    else none
  | .loadInc t => if m.pc t = .entered then some (m.goto t (.loadedInc m.lock), none) else none
  | .storeInc t =>
    match m.pc t with
    | .loadedInc v => some ({ m with lock := v + 1 }.goto t .holds, some 0)
    | _ => none
  | .check t =>
    if m.pc t = .out ∨ m.pc t = .holds then
      if m.lock = 0 then some (m, some (-2)) else some (m.goto t .passed, none)
    else none
  | .uvUnlock t =>
    if m.pc t = .passed ∧ m.owner = some t then some ({ m with owner := none }.goto t .left, none)
    else none
  | .loadDec t => if m.pc t = .left then some (m.goto t (.loadedDec m.lock), none) else none
  | .storeDec t =>
    match m.pc t with
    | .loadedDec v => some ({ m with lock := v - 1 }.goto t .out, some 0)
    | _ => none

/-- A mutex under every interleaving of its threads. -/
def machine (T : Type) [DecidableEq T] : Machine (PcMutex T) (Op T) (Option Int) :=
  ⟨luatMutexCreate, step⟩

/-- A transition. -/
abbrev Trans (T : Type) := Transition (PcMutex T) (Op T) (Option Int)

/-- `luat_mutex_unlock` is called by a thread that holds the mutex. -/
def Disciplined (e : Trans T) : Prop :=
  ∀ t, e.act = .check t → e.src.pc t = .holds

/-- What is stored was computed from the value that is overwritten. -/
def Fresh (e : Trans T) : Prop :=
  (∀ t, e.act = .storeInc t → e.src.pc t = .loadedInc e.src.lock) ∧
  ∀ t, e.act = .storeDec t → e.src.pc t = .loadedDec e.src.lock

variable {m m' : PcMutex T} {op : Op T} {o : Option Int} {t : T} {c : Pc}

@[simp] theorem goto_lock : (m.goto t c).lock = m.lock := rfl

@[simp] theorem goto_owner : (m.goto t c).owner = m.owner := rfl

theorem goto_pc (u : T) : (m.goto t c).pc u = if u = t then c else m.pc u := by
  simp [PcMutex.goto, Function.update_apply]

/-! ## What each access can do -/

theorem step_uvLock (h : step m (.uvLock t) = some (m', o)) :
    m.pc t = .out ∧ m.owner = none ∧ m' = { m with owner := some t }.goto t .entered := by
  simp only [step] at h
  split at h
  case isTrue hpc => exact ⟨hpc.1, hpc.2, (Prod.mk.inj (Option.some.inj h)).1.symm⟩
  case isFalse => cases h

theorem step_loadInc (h : step m (.loadInc t) = some (m', o)) :
    m.pc t = .entered ∧ m' = m.goto t (.loadedInc m.lock) := by
  simp only [step] at h
  split at h
  case isTrue hpc => exact ⟨hpc, (Prod.mk.inj (Option.some.inj h)).1.symm⟩
  case isFalse => cases h

theorem step_storeInc (h : step m (.storeInc t) = some (m', o)) :
    ∃ v, m.pc t = .loadedInc v ∧ m' = { m with lock := v + 1 }.goto t .holds := by
  simp only [step] at h
  split at h
  case h_1 v hpc => exact ⟨v, hpc, (Prod.mk.inj (Option.some.inj h)).1.symm⟩
  case h_2 => cases h

theorem step_check (h : step m (.check t) = some (m', o)) :
    (m.pc t = .out ∨ m.pc t = .holds) ∧
      (m.lock = 0 ∧ m' = m ∧ o = some (-2) ∨ m.lock ≠ 0 ∧ m' = m.goto t .passed) := by
  simp only [step] at h
  split at h
  case isFalse => cases h
  case isTrue hpc =>
    split at h
    case isTrue h0 =>
      obtain ⟨rfl, rfl⟩ := Prod.mk.inj (Option.some.inj h)
      exact ⟨hpc, .inl ⟨h0, rfl, rfl⟩⟩
    case isFalse h0 => exact ⟨hpc, .inr ⟨h0, (Prod.mk.inj (Option.some.inj h)).1.symm⟩⟩

theorem step_uvUnlock (h : step m (.uvUnlock t) = some (m', o)) :
    m.pc t = .passed ∧ m.owner = some t ∧ m' = { m with owner := none }.goto t .left := by
  simp only [step] at h
  split at h
  case isTrue hpc => exact ⟨hpc.1, hpc.2, (Prod.mk.inj (Option.some.inj h)).1.symm⟩
  case isFalse => cases h

theorem step_loadDec (h : step m (.loadDec t) = some (m', o)) :
    m.pc t = .left ∧ m' = m.goto t (.loadedDec m.lock) := by
  simp only [step] at h
  split at h
  case isTrue hpc => exact ⟨hpc, (Prod.mk.inj (Option.some.inj h)).1.symm⟩
  case isFalse => cases h

theorem step_storeDec (h : step m (.storeDec t) = some (m', o)) :
    ∃ v, m.pc t = .loadedDec v ∧ m' = { m with lock := v - 1 }.goto t .out := by
  simp only [step] at h
  split at h
  case h_1 v hpc => exact ⟨v, hpc, (Prod.mk.inj (Option.some.inj h)).1.symm⟩
  case h_2 => cases h

/-! ## Without lost updates -/

/-- The part of a thread in the counter. -/
def Pc.weight : Pc → Int
  | .holds | .passed | .left | .loadedDec _ => 1
  | _ => 0

/-- The thread is the owner of the `uv_mutex_t`. -/
def Pc.Inside : Pc → Prop
  | .entered | .loadedInc _ | .holds | .passed => True
  | _ => False

/-- The threads that are inside are the owner. -/
def Owned (m : PcMutex T) : Prop := ∀ t, (m.pc t).Inside ↔ m.owner = some t

/-- The counter counts those that have counted themselves in and not out. -/
def Counted [Fintype T] (m : PcMutex T) : Prop := m.lock = ∑ t, (m.pc t).weight

theorem sum_goto [Fintype T] :
    ∑ u, ((m.goto t c).pc u).weight + (m.pc t).weight = ∑ u, (m.pc u).weight + c.weight := by
  have hrest : ∑ u ∈ Finset.univ.erase t, ((m.goto t c).pc u).weight =
      ∑ u ∈ Finset.univ.erase t, (m.pc u).weight := by
    refine Finset.sum_congr rfl fun u hu => ?_
    rw [goto_pc, if_neg (Finset.ne_of_mem_erase hu)]
  rw [← Finset.add_sum_erase _ _ (Finset.mem_univ t), hrest, goto_pc, if_pos rfl,
    ← Finset.add_sum_erase Finset.univ (fun u => (m.pc u).weight) (Finset.mem_univ t)]
  ring

/-- A thread that moves on inside, or outside, leaves the owner as it is. -/
theorem Owned.goto {v : Int} (hm : Owned m) (h : c.Inside ↔ (m.pc t).Inside) :
    Owned ((⟨m.owner, v, m.pc⟩ : PcMutex T).goto t c) := by
  intro u
  rw [goto_pc, goto_owner, ← hm u]
  split
  case isTrue hu => rw [hu, h]
  case isFalse => rfl

theorem step_owned (hm : Owned m) (h : step m op = some (m', o))
    (hd : Disciplined ⟨m, op, o, m'⟩) : Owned m' := by
  cases op with
  | uvLock t =>
    obtain ⟨-, hfree, rfl⟩ := step_uvLock h
    intro u
    rw [goto_pc, goto_owner, Option.some.injEq]
    split
    case isTrue hu => simp [Pc.Inside, hu]
    case isFalse hu => exact iff_of_false ((hm u).not.2 (by simp [hfree])) (Ne.symm hu)
  | loadInc t =>
    obtain ⟨hpc, rfl⟩ := step_loadInc h
    exact hm.goto (by simp [hpc, Pc.Inside])
  | storeInc t =>
    obtain ⟨v, hpc, rfl⟩ := step_storeInc h
    exact hm.goto (by simp [hpc, Pc.Inside])
  | check t =>
    have hpc : m.pc t = .holds := hd t rfl
    obtain ⟨-, ⟨-, rfl, -⟩ | ⟨-, rfl⟩⟩ := step_check h
    · exact hm
    · exact hm.goto (by simp [hpc, Pc.Inside])
  | uvUnlock t =>
    obtain ⟨-, howner, rfl⟩ := step_uvUnlock h
    intro u
    rw [goto_pc, goto_owner]
    split
    case isTrue => simp [Pc.Inside]
    case isFalse hu =>
      rw [hm u, howner, Option.some.injEq]
      exact iff_of_false (Ne.symm hu) (by simp)
  | loadDec t =>
    obtain ⟨hpc, rfl⟩ := step_loadDec h
    exact hm.goto (by simp [hpc, Pc.Inside])
  | storeDec t =>
    obtain ⟨v, hpc, rfl⟩ := step_storeDec h
    exact hm.goto (by simp [hpc, Pc.Inside])

/-- What a thread's part in the counter grows by is what is stored. -/
theorem Counted.goto [Fintype T] {owner : Option T} {v : Int} (hm : Counted m)
    (h : v + (m.pc t).weight = m.lock + c.weight) :
    Counted ((⟨owner, v, m.pc⟩ : PcMutex T).goto t c) := by
  have hsum := sum_goto (m := ⟨owner, v, m.pc⟩) (t := t) (c := c)
  rw [Counted] at hm ⊢
  rw [goto_lock]
  change _ + (m.pc t).weight = ∑ u, (m.pc u).weight + _ at hsum
  change v = _
  omega

theorem step_counted [Fintype T] (hm : Counted m) (h : step m op = some (m', o))
    (hd : Disciplined ⟨m, op, o, m'⟩) (hf : Fresh ⟨m, op, o, m'⟩) : Counted m' := by
  cases op with
  | uvLock t =>
    obtain ⟨hpc, -, rfl⟩ := step_uvLock h
    exact hm.goto (by simp [hpc, Pc.weight])
  | loadInc t =>
    obtain ⟨hpc, rfl⟩ := step_loadInc h
    exact hm.goto (by simp [hpc, Pc.weight])
  | storeInc t =>
    obtain ⟨v, hpc, rfl⟩ := step_storeInc h
    obtain rfl : v = m.lock := Pc.loadedInc.inj (hpc.symm.trans (hf.1 t rfl))
    exact hm.goto (by simp [hpc, Pc.weight])
  | check t =>
    have hpc : m.pc t = .holds := hd t rfl
    obtain ⟨-, ⟨-, rfl, -⟩ | ⟨-, rfl⟩⟩ := step_check h
    · exact hm
    · exact hm.goto (by simp [hpc, Pc.weight])
  | uvUnlock t =>
    obtain ⟨hpc, -, rfl⟩ := step_uvUnlock h
    exact hm.goto (by simp [hpc, Pc.weight])
  | loadDec t =>
    obtain ⟨hpc, rfl⟩ := step_loadDec h
    exact hm.goto (by simp [hpc, Pc.weight])
  | storeDec t =>
    obtain ⟨v, hpc, rfl⟩ := step_storeDec h
    obtain rfl : v = m.lock := Pc.loadedDec.inj (hpc.symm.trans (hf.2 t rfl))
    exact hm.goto (by simp [hpc, Pc.weight])

theorem Pc.weight_nonneg (c : Pc) : 0 ≤ c.weight := by
  cases c <;> simp [Pc.weight]

/-- **The counter is right if no update is lost.**  Over every interleaving in which only
holders unlock and no store overwrites a value it was not computed from, at most one
thread is between `uv_mutex_lock` and `uv_mutex_unlock`, `m->lock` is the number of
threads that have counted themselves in and not yet out, and no holder's
`luat_mutex_unlock` is refused. -/
theorem lockCount_eq [Fintype T] {tr : List (Trans T)} (h : Run (machine T) tr m)
    (hd : ∀ e ∈ tr, Disciplined e) (hf : ∀ e ∈ tr, Fresh e) :
    (∀ t u, (m.pc t).Inside → (m.pc u).Inside → t = u) ∧
    m.lock = ∑ t, (m.pc t).weight ∧
    ∀ t, m.pc t = .holds → step m (.check t) = some (m.goto t .passed, none) ∧
      m.owner = some t := by
  obtain ⟨howned, hcounted⟩ : Owned m ∧ Counted m := by
    refine h.toPath.history_invariant (I := fun _ m => Owned m ∧ Counted m)
      (C := fun e => Disciplined e ∧ Fresh e) (fun e he => ⟨hd e he, hf e he⟩) ?_ ?_
    · exact ⟨fun t => by simp [machine, luatMutexCreate, Pc.Inside],
        by simp [machine, luatMutexCreate, Counted, Pc.weight]⟩
    · rintro tr s a s' o ⟨ho, hc⟩ hs ⟨hdis, hfresh⟩
      exact ⟨step_owned ho hs hdis, step_counted hc hs hdis hfresh⟩
  refine ⟨fun t u ht hu => ?_, hcounted, fun t ht => ⟨?_, (howned t).1 (by simp [ht, Pc.Inside])⟩⟩
  · exact Option.some.inj (((howned t).1 ht).symm.trans ((howned u).1 hu))
  · have hle : (m.pc t).weight ≤ m.lock := by
      rw [hcounted]
      exact Finset.single_le_sum (fun u _ => Pc.weight_nonneg (m.pc u)) (Finset.mem_univ t)
    have hne : m.lock ≠ 0 := by
      rw [ht] at hle
      simp only [Pc.weight] at hle
      omega
    simp [step, ht, hne]

/-- Two threads that take turns: the second locks before the first has counted itself
out, and finds the counter at 1. -/
def takeTurns : List (Op Bool) :=
  [.uvLock true, .loadInc true, .storeInc true, .check true, .uvUnlock true, .uvLock false,
    .loadInc false, .storeInc false]

theorem lockCount_eq_takeTurns :
    ((machine Bool).stateOf takeTurns).lock = 2 ∧
      step ((machine Bool).stateOf takeTurns) (.check false) =
        some (((machine Bool).stateOf takeTurns).goto false .passed, none) := by
  have hexec : ((machine Bool).exec (machine Bool).init takeTurns).isSome = true := by decide
  have hd : ∀ e ∈ (machine Bool).traceOf takeTurns, Disciplined e :=
    Machine.forall_mem_traceOf (by
      simp [takeTurns, Machine.Along, machine, step, luatMutexCreate, PcMutex.goto, Disciplined])
  have hf : ∀ e ∈ (machine Bool).traceOf takeTurns, Fresh e :=
    Machine.forall_mem_traceOf (by
      simp [takeTurns, Machine.Along, machine, step, luatMutexCreate, PcMutex.goto, Fresh])
  have hall := lockCount_eq (Machine.run_exec hexec) hd hf
  exact ⟨hall.2.1.trans (by decide), (hall.2.2 false (by decide)).1⟩

/-! ## With a lost update -/

/-- The schedule: `t` gives the mutex back but stores its count only after `u` has stored
its own. -/
def lostUpdate (t u : T) : List (Op T) :=
  [.uvLock t, .loadInc t, .storeInc t, .check t, .uvUnlock t, .loadDec t,
    .uvLock u, .loadInc u, .storeInc u, .storeDec t]

theorem exec_lostUpdate {u : T} (htu : t ≠ u) :
    ((machine T).exec (machine T).init (lostUpdate t u)).map Prod.snd =
      some ⟨some u, 0, Function.update (fun _ => .out) u .holds⟩ := by
  simp only [lostUpdate, Machine.exec, machine, step, luatMutexCreate, PcMutex.goto,
    Function.update_self, Function.update_of_ne htu, Function.update_of_ne htu.symm,
    Function.update_idem, Option.map_some, and_self, or_true, if_true, Int.zero_add,
    Int.reduceSub, one_ne_zero, if_false]
  have hout : .out = (Function.update (fun _ => Pc.out) u .holds : T → Pc) t := by simp [htu]
  rw [Function.update_comm htu, Function.update_idem, Function.update_eq_self_iff.2 hout]

theorem disciplined_lostUpdate {u : T} (htu : t ≠ u) :
    ∀ e ∈ (machine T).traceOf (lostUpdate t u), Disciplined e := by
  refine Machine.forall_mem_traceOf ?_
  simp [lostUpdate, Machine.Along, machine, step, luatMutexCreate, PcMutex.goto, htu, htu.symm,
    Disciplined]

/-- A mutex that is held while its counter reads 0, with nobody else on the way. -/
structure Stuck (m : PcMutex T) (u : T) : Prop where
  owner : m.owner = some u
  lock : m.lock = 0
  pc : ∀ t, m.pc t = .out ∨ m.pc t = .holds

/-- All that can happen to a stuck mutex is that an unlock is refused. -/
theorem step_stuck {u : T} (hm : Stuck m u) (h : step m op = some (m', o)) :
    m' = m ∧ (∃ t, op = .check t) ∧ o = some (-2) := by
  have hat : ∀ {t c}, m.pc t = c → c = .out ∨ c = .holds := fun h => h ▸ hm.pc _
  cases op with
  | uvLock t =>
    obtain ⟨-, hfree, -⟩ := step_uvLock h
    rw [hm.owner] at hfree
    cases hfree
  | check t =>
    obtain ⟨-, ⟨-, rfl, rfl⟩ | ⟨hne, -⟩⟩ := step_check h
    · exact ⟨rfl, ⟨t, rfl⟩, rfl⟩
    · exact absurd hm.lock hne
  -- every other access is in the middle of a call, and nobody is
  | loadInc t => simpa using hat (step_loadInc h).1
  | storeInc t =>
    obtain ⟨v, hpc, -⟩ := step_storeInc h
    simpa using hat hpc
  | uvUnlock t => simpa using hat (step_uvUnlock h).1
  | loadDec t => simpa using hat (step_loadDec h).1
  | storeDec t =>
    obtain ⟨v, hpc, -⟩ := step_storeDec h
    simpa using hat hpc

theorem path_stuck {u : T} {tr : List (Trans T)} (hm : Stuck m u) (h : Path (machine T) m tr m') :
    m' = m ∧ ∀ e ∈ tr, (∃ t, e.act = .check t) ∧ e.out = some (-2) := by
  refine h.history_invariant (C := fun _ => True)
    (I := fun tr m' => m' = m ∧ ∀ e ∈ tr, (∃ t, e.act = .check t) ∧ e.out = some (-2))
    (fun _ _ => trivial) ⟨rfl, by simp⟩ ?_
  rintro tr s a s' o ⟨rfl, hall⟩ hs -
  obtain ⟨rfl, hact, hout⟩ := step_stuck hm hs
  refine ⟨rfl, fun e he => ?_⟩
  obtain he | he := List.mem_append.1 he
  · exact hall e he
  · rw [List.mem_singleton.1 he]
    exact ⟨hact, hout⟩

/-- **One lost update blocks the mutex for good.**  Any two threads that lock and unlock
correctly can reach a state in which one of them holds the mutex, every unlock is
refused with -2, its own too, and whatever the threads go on to do, nobody gets the
mutex again. -/
theorem exists_stuck {u : T} (htu : t ≠ u) :
    ∃ tr m, Run (machine T) tr m ∧ (∀ e ∈ tr, Disciplined e) ∧
      m.owner = some u ∧ m.pc u = .holds ∧
      ∀ tr' m', Path (machine T) m tr' m' →
        m'.owner = some u ∧ ∀ e ∈ tr', (∃ v, e.act = .check v) ∧ e.out = some (-2) := by
  have hexec := exec_lostUpdate htu
  have hrun : Run (machine T) ((machine T).traceOf (lostUpdate t u))
      ((machine T).stateOf (lostUpdate t u)) :=
    Machine.run_exec (by rw [← Option.isSome_map (f := Prod.snd), hexec]; rfl)
  have hstate : (machine T).stateOf (lostUpdate t u) =
      ⟨some u, 0, Function.update (fun _ => .out) u .holds⟩ := by
    rw [Machine.stateOf, hexec, Option.getD_some]
  refine ⟨_, _, hrun, disciplined_lostUpdate htu, ?_⟩
  rw [hstate]
  refine ⟨rfl, by simp, fun tr' m' hpath => ?_⟩
  have hstuck : Stuck (⟨some u, 0, Function.update (fun _ => .out) u .holds⟩ : PcMutex T) u :=
    ⟨rfl, rfl, fun v => by by_cases hv : v = u <;> simp [hv]⟩
  obtain ⟨rfl, hall⟩ := path_stuck hstuck hpath
  exact ⟨rfl, hall⟩

theorem exists_stuck_bool :
    true ≠ false ∧
    ∃ tr m, Run (machine Bool) tr m ∧ (∀ e ∈ tr, Disciplined e) ∧
      m.owner = some false ∧ m.pc false = .holds ∧
      ∀ tr' m', Path (machine Bool) m tr' m' →
        m'.owner = some false ∧ ∀ e ∈ tr', (∃ v, e.act = .check v) ∧ e.out = some (-2) :=
  ⟨by decide, exists_stuck (t := true) (by decide)⟩

end Mutex
end Rtos
end LuatosPc
