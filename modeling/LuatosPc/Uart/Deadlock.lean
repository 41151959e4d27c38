import LuatosPc.Uart.Win32

/-!
# Two mutexes in both orders

Three places of the serial library lock a second mutex under a first one.
`luat_uart_open_extern` takes `UART_IS_CLOSED` under `UART_BUFF`, and no other
code takes the two the other way round.  `luat_uart_send_extern` takes
`UART_WAIT_SEND` under `UART_WAIT_SEND_DATA`; a worker with something to send
takes `UART_WAIT_SEND_DATA` under `UART_WAIT_SEND`.  A sender and a worker that
each have their first mutex wait for each other for good.

* `consistent_run` — the recorded holders are right in every reachable state.
* `deadlocked_iff` — a reachable state is deadlocked exactly if some sender and
  some worker both stand between their two locks.
* `never_deadlocked_iff` — so a run is free of deadlocks exactly if no thread
  ever goes there while a thread of the other kind is there (`NestOk`);
  `sender_and_worker_deadlock` — a run that gets stuck.
-/

namespace LuatosPc
namespace Uart

/-- What the program counters say about the mutexes. -/
def discipline : Discipline Lock Pc := ⟨Pc.wants, Pc.holds⟩

/-- A set of threads each waiting for a mutex that another of them holds. -/
def State.Deadlocked (σ : State) : Prop := LockState.Deadlocked discipline σ.toLockState

/-- The recorded holders are right. -/
def State.Consistent (σ : State) : Prop := LockState.Consistent discipline σ.toLockState

/-! ## Locking and unlocking -/

/-- A thread that locks a mutex holds it from then on, and keeps what it held. -/
theorem Pc.holds_locked {pc : Pc} {m : Lock} (h : pc.wants = some m) (μ : Maps)
    (taken : Option Nat) (m' : Lock) :
    m' ∈ (pc.locked μ taken).2.1.holds ↔ m' = m ∨ m' ∈ pc.holds := by
  cases pc <;> simp only [Pc.wants, reduceCtorEq, Option.some.injEq] at h <;> subst h
  case readBuff port len =>
    simp only [Pc.locked]
    split <;> simp [Pc.holds]
  case workBuff port data =>
    simp only [Pc.locked]
    split <;> simp [Pc.holds]
  case workRecvCb port len =>
    simp only [Pc.locked]
    split <;> simp [Pc.holds]
  case workClosed port =>
    simp only [Pc.locked]
    split <;> simp [Pc.holds]
  case workSend port =>
    simp only [Pc.locked]
    split <;> simp [Pc.holds]
  case workFlush port =>
    simp only [Pc.locked]
    split <;> simp [Pc.holds, or_comm]
  all_goals simp [Pc.locked, Pc.holds, or_comm]

/-- A thread that unlocks a mutex held it, and keeps the others. -/
theorem Pc.holds_dropped {pc : Pc} {m : Lock} (h : pc.drops = some m) :
    m ∈ pc.holds ∧ ∀ m', m' ∈ pc.dropped.1.holds ↔ m' ≠ m ∧ m' ∈ pc.holds := by
  cases pc <;> simp only [Pc.drops, reduceCtorEq, Option.some.injEq] at h <;> subst h
  case sendChecked isOpen port data =>
    cases isOpen <;> simp [Pc.dropped, Pc.holds]
  case readChecked isOpen port len =>
    cases isOpen <;> simp [Pc.dropped, Pc.holds]
  case closeDrop m port =>
    cases m <;> simp [Pc.dropped, Pc.holds, closeNext]
  all_goals simp [Pc.dropped, Pc.holds]
  all_goals (intro m'; cases m' <;> simp)

theorem step_consistent {σ σ' : State} {a : Act} {o : Answer} (hc : σ.Consistent)
    (h : step σ a = some (σ', o)) : σ'.Consistent := by
  cases a with
  | call t c =>
    simp only [step, Option.ite_none_right_eq_some, Option.some.injEq, Prod.mk.injEq] at h
    obtain ⟨hidle, rfl, -⟩ := h
    refine LockState.Consistent.move hc ?_
    rw [hidle]
    cases c <;> rfl
  | lock t taken =>
    simp only [step] at h
    split at h
    · exact absurd h (by simp)
    · rename_i m hm
      simp only [Option.ite_none_right_eq_some, Option.some.injEq, Prod.mk.injEq] at h
      obtain ⟨hfree, rfl, -⟩ := h
      exact LockState.Consistent.acquire hc hfree (Pc.holds_locked hm σ.maps taken)
  | unlock t =>
    simp only [step] at h
    split at h
    · exact absurd h (by simp)
    · rename_i m hm
      simp only [Option.some.injEq, Prod.mk.injEq] at h
      obtain ⟨rfl, -⟩ := h
      exact LockState.Consistent.release hc (Pc.holds_dropped hm).1 (Pc.holds_dropped hm).2
  | spawn t u =>
    simp only [step] at h
    split at h
    · rename_i port hpc
      simp only [Option.ite_none_right_eq_some, Option.some.injEq, Prod.mk.injEq] at h
      obtain ⟨hidle, rfl, -⟩ := h
      have hfirst : LockState.Consistent discipline (σ.move t .idle) := by
        refine LockState.Consistent.move hc ?_
        rw [hpc]
        rfl
      refine hfirst.move ?_
      have hu : (σ.move t .idle).pc u = .idle := by
        simp only [LockState.move, Function.update_apply]
        split
        · rfl
        · exact hidle
      rw [hu]
      rfl
    · exact absurd h (by simp)
  | uartRead t r =>
    simp only [step] at h
    split at h
    · rename_i port hpc
      split at h <;> simp only [Option.some.injEq, Prod.mk.injEq] at h <;> obtain ⟨rfl, -⟩ := h <;>
        · refine LockState.Consistent.move hc ?_
          rw [hpc]
          rfl
    · exact absurd h (by simp)

/-- **The recorded holders are right** in every reachable state. -/
theorem consistent_run {tr : List Trans} {σ : State} (h : Run machine tr σ) : σ.Consistent := by
  refine h.invariant (I := State.Consistent) ?_ ?_
  · intro m t
    simp [machine, State.start, discipline, Pc.holds]
  · intro σ a σ' o hc hstep
    exact step_consistent hc hstep

/-! ## Between two locks -/

/-- A sender and a worker both stand between their two locks. -/
def Crossed (σ : State) : Prop :=
  ∃ u w p len port, σ.pc u = .sendFlag p len ∧ σ.pc w = .workFlush port

/-- The places where a thread holds a mutex and waits for another. -/
theorem Pc.nested_cases {pc : Pc} {m m' : Lock} (hm : m ∈ pc.holds) (hw : pc.wants = some m') :
    (∃ p len, pc = .sendFlag p len ∧ m = .uartWaitSendData ∧ m' = .uartWaitSend) ∨
    (∃ port, pc = .workFlush port ∧ m = .uartWaitSend ∧ m' = .uartWaitSendData) ∨
    (∃ port, pc = .openClosed port ∧ m = .uartBuff ∧ m' = .uartIsClosed) := by
  cases pc <;> simp [Pc.wants] at hw <;> simp [Pc.holds] at hm
  case sendFlag p len => exact Or.inl ⟨p, len, rfl, hm, hw.symm⟩
  case workFlush port => exact Or.inr (Or.inl ⟨port, rfl, hm, hw.symm⟩)
  case openClosed port => exact Or.inr (Or.inr ⟨port, rfl, hm, hw.symm⟩)

/-- **What a deadlock is here**: a sender and a worker, each with its first mutex
in hand. -/
theorem deadlocked_iff {σ : State} (hc : σ.Consistent) : σ.Deadlocked ↔ Crossed σ := by
  constructor
  · intro hd
    obtain ⟨u, w, m, m', m'', hm, hu, hm', hw⟩ := LockState.Deadlocked.nested hd hc
    rcases Pc.nested_cases hm hu with ⟨p, len, hpu, -, rfl⟩ | ⟨port, hpu, -, rfl⟩ | ⟨-, -, -, rfl⟩
    · -- the sender waits for `UART_WAIT_SEND`: only a worker holds it and waits
      rcases Pc.nested_cases hm' hw with ⟨_, _, -, hx, -⟩ | ⟨port, hpw, -⟩ | ⟨_, -, hx, -⟩
      · cases hx
      · exact ⟨u, w, p, len, port, hpu, hpw⟩
      · cases hx
    · rcases Pc.nested_cases hm' hw with ⟨p, len, hpw, -⟩ | ⟨_, -, hx, -⟩ | ⟨_, -, hx, -⟩
      · exact ⟨w, u, p, len, port, hpw, hpu⟩
      · cases hx
      · cases hx
    · -- whoever holds `UART_IS_CLOSED` waits for nothing
      rcases Pc.nested_cases hm' hw with ⟨_, _, -, hx, -⟩ | ⟨_, -, hx, -⟩ | ⟨_, -, hx, -⟩ <;> cases hx
  · rintro ⟨u, w, p, len, port, hu, hw⟩
    have hne : u ≠ w := by
      rintro rfl
      rw [hu] at hw
      cases hw
    have hsend : σ.holder .uartWaitSendData = some u :=
      (hc .uartWaitSendData u).2 (by simp [discipline, hu, Pc.holds])
    have hwork : σ.holder .uartWaitSend = some w :=
      (hc .uartWaitSend w).2 (by simp [discipline, hw, Pc.holds])
    refine LockState.deadlocked_of_waits (t := u) (u := w) ⟨hne, .uartWaitSend, ?_, hwork⟩
      ⟨Ne.symm hne, .uartWaitSendData, ?_, hsend⟩
    · simp [discipline, hu, Pc.wants]
    · simp [discipline, hw, Pc.wants]

/-! ## How a thread gets between two locks -/

/-- The thread holds a mutex and waits for another. -/
def Pc.Between (pc : Pc) : Prop := pc.holds ≠ [] ∧ pc.wants ≠ none

theorem Pc.not_between_dropped {pc : Pc} (h : pc.drops ≠ none) : ¬ pc.dropped.1.Between := by
  cases pc <;> simp only [Pc.drops, ne_eq, not_true_eq_false] at h
  case sendChecked isOpen port data =>
    cases isOpen <;> simp [Pc.Between, Pc.dropped, Pc.holds]
  case readChecked isOpen port len =>
    cases isOpen <;> simp [Pc.Between, Pc.dropped, Pc.holds]
  case closeDrop m port =>
    cases m <;> simp [Pc.Between, Pc.dropped, Pc.holds, closeNext]
  all_goals simp [Pc.Between, Pc.dropped, Pc.holds, Pc.wants]

/-- A thread gets between two locks by taking the first. -/
theorem step_between {σ σ' : State} {a : Act} {o : Answer} (h : step σ a = some (σ', o))
    {v : Thread} (hv : (σ'.pc v).Between) : σ'.pc v = σ.pc v ∨
      ∃ taken, a = .lock v taken ∧ σ'.pc v = ((σ.pc v).locked σ.maps taken).2.1 := by
  obtain ⟨-, hsame⟩ | ⟨taken, hact, -, hpc⟩ | ⟨-, hdrops, hpc, -⟩ | ⟨-, hholds, -⟩ := thread_step h v
  · exact Or.inl hsame
  · exact Or.inr ⟨taken, hact, hpc⟩
  · rw [hpc] at hv
    exact absurd hv (Pc.not_between_dropped hdrops)
  · exact absurd hholds hv.1

theorem Pc.locked_eq_sendFlag {pc : Pc} {μ : Maps} {taken : Option Nat} {p : Port} {len : Nat}
    (h : (pc.locked μ taken).2.1 = .sendFlag p len) : ∃ data, pc = .sendData p data := by
  revert h
  fun_cases Pc.locked μ taken pc <;> intro h <;> cases h
  exact ⟨_, rfl⟩

theorem Pc.locked_eq_workFlush {pc : Pc} {μ : Maps} {taken : Option Nat} {port : Port}
    (h : (pc.locked μ taken).2.1 = .workFlush port) :
    pc = .workSend port ∧ μ.uartWaitSend port = some true := by
  revert h
  fun_cases Pc.locked μ taken pc <;> intro h <;> cases h
  rename_i hflag
  exact ⟨rfl, hflag⟩

/-- A step does not take the first of two mutexes while a thread of the other kind
has its first: `luat_uart_send_extern` locks `UART_WAIT_SEND_DATA` only while no
worker is between its locks, and a worker with something to send locks
`UART_WAIT_SEND` only while no sender is between its locks. -/
def NestOk (e : Trans) : Prop :=
  match e.act with
  | .lock t _ =>
    match e.src.pc t with
    | .sendData _ _ => ∀ w port, e.src.pc w ≠ .workFlush port
    | .workSend port =>
      e.src.maps.uartWaitSend port = some true → ∀ u p len, e.src.pc u ≠ .sendFlag p len
    | _ => True
  | _ => True

/-- A step that meets the condition crosses no locks. -/
theorem crossed_of_step {e : Trans} (h : step e.src e.act = some (e.dst, e.out))
    (hx : Crossed e.dst) (hok : NestOk e) : Crossed e.src := by
  obtain ⟨u, w, p, len, port, hu, hw⟩ := hx
  unfold NestOk at hok
  have hsend : e.src.pc u = .sendFlag p len ∨
      ∃ taken data, e.act = .lock u taken ∧ e.src.pc u = .sendData p data := by
    rcases step_between h (v := u) (by rw [hu]; simp [Pc.Between, Pc.holds, Pc.wants]) with
      heq | ⟨taken, hact, heq⟩
    · exact Or.inl (heq.symm.trans hu)
    · obtain ⟨data, hdata⟩ := Pc.locked_eq_sendFlag (heq.symm.trans hu)
      exact Or.inr ⟨taken, data, hact, hdata⟩
  have hwork : e.src.pc w = .workFlush port ∨ ∃ taken, e.act = .lock w taken ∧
      e.src.pc w = .workSend port ∧ e.src.maps.uartWaitSend port = some true := by
    rcases step_between h (v := w) (by rw [hw]; simp [Pc.Between, Pc.holds, Pc.wants]) with
      heq | ⟨taken, hact, heq⟩
    · exact Or.inl (heq.symm.trans hw)
    · exact Or.inr ⟨taken, hact, Pc.locked_eq_workFlush (heq.symm.trans hw)⟩
  rcases hsend with hsend | ⟨taken, data, hact, hdata⟩
  · rcases hwork with hwork | ⟨taken, hact, hpc, hflag⟩
    · exact ⟨u, w, p, len, port, hsend, hwork⟩
    · rw [hact] at hok
      simp only [hpc] at hok
      exact absurd hsend (hok hflag u p len)
  · rw [hact] at hok
    simp only [hdata] at hok
    rcases hwork with hwork | ⟨taken', hact', hpc, -⟩
    · exact absurd hwork (hok w port)
    · -- one thread cannot be both
      rw [hact] at hact'
      cases hact'
      rw [hdata] at hpc
      cases hpc

/-- A step that does not meet the condition crosses two. -/
theorem crossed_of_not_nestOk {e : Trans} (h : step e.src e.act = some (e.dst, e.out))
    (hok : ¬ NestOk e) : Crossed e.dst := by
  unfold NestOk at hok
  split at hok
  · rename_i t taken hact
    rw [hact] at h
    obtain ⟨hself, hothers⟩ := pc_of_lock h
    split at hok
    · rename_i p data hpc
      push Not at hok
      obtain ⟨w, port, hw⟩ := hok
      rw [hpc] at hself
      refine ⟨t, w, p, data.length, port, hself, ?_⟩
      rw [hothers w (by rintro rfl; rw [hpc] at hw; cases hw)]
      exact hw
    · rename_i port hpc
      push Not at hok
      obtain ⟨hflag, u, p, len, hu⟩ := hok
      rw [hpc] at hself
      simp only [Pc.locked, hflag] at hself
      refine ⟨u, t, p, len, port, ?_, hself⟩
      rw [hothers u (by rintro rfl; rw [hpc] at hu; cases hu)]
      exact hu
    · exact absurd trivial hok
  · exact absurd trivial hok

theorem not_crossed_start : ¬ Crossed State.start := by
  rintro ⟨u, w, p, len, port, hu, -⟩
  cases hu

/-- A run whose steps all meet the condition crosses no locks. -/
theorem not_crossed_run {tr : List Trans} {σ : State} (h : Run machine tr σ)
    (hok : ∀ e ∈ tr, NestOk e) : ¬ Crossed σ := by
  refine h.history_invariant (I := fun _ σ => ¬ Crossed σ) (C := fun _ e => NestOk e) ?_
    not_crossed_start ?_
  · intro pre e post he
    exact hok e (by simp [he])
  · intro tr σ a σ' o _ hnot hstep hC hx
    exact hnot (crossed_of_step (e := ⟨σ, a, o, σ'⟩) hstep hx hC)

/-- **The serial library deadlocks exactly where a sender and a worker cross.**
Along every run, no state is deadlocked if and only if every step of the run
meets `NestOk`. -/
theorem never_deadlocked_iff {tr : List Trans} {σ : State} (h : Run machine tr σ) :
    (¬ State.start.Deadlocked ∧ ∀ e ∈ tr, ¬ e.dst.Deadlocked) ↔ ∀ e ∈ tr, NestOk e := by
  -- every state along the run is reached by a part of it
  have hreach : ∀ pre e post, tr = pre ++ e :: post → Run machine (pre ++ [e]) e.dst := by
    intro pre e post he
    obtain ⟨hpre, hstep⟩ := h.split he
    exact hpre.snoc hstep
  constructor
  · rintro ⟨-, hfree⟩ e he
    obtain ⟨pre, post, heq⟩ := List.append_of_mem he
    by_contra hok
    refine hfree e he ((deadlocked_iff (consistent_run (hreach pre e post heq))).2 ?_)
    exact crossed_of_not_nestOk (h.step_of_mem he) hok
  · intro hok
    refine ⟨fun hd => ?_, fun e he hd => ?_⟩
    · exact not_crossed_start ((deadlocked_iff (consistent_run .start)).1 hd)
    · obtain ⟨pre, post, heq⟩ := List.append_of_mem he
      have hrun := hreach pre e post heq
      refine not_crossed_run hrun ?_ ((deadlocked_iff (consistent_run hrun)).1 hd)
      intro e' he'
      refine hok e' ?_
      rw [heq]
      rcases List.mem_append.1 he' with hmem | hmem
      · simp [hmem]
      · simp [List.mem_singleton.1 hmem]

/-- The Lua thread 1 opens port 1, whose worker is thread 2, and sends a byte.  The worker takes
the byte between its two locks, and then thread 1 sends another. -/
def turnsOps : List Act :=
  [.call 1 (.luatUartOpenExtern 1), .lock 1 none, .lock 1 none, .unlock 1, .unlock 1, .spawn 1 2,
    .call 1 (.luatUartSendExtern 1 [0x41]), .lock 1 none, .unlock 1, .lock 1 none, .lock 1 none,
    .unlock 1, .unlock 1,
    .uartRead 2 (.data []), .lock 2 none, .unlock 2, .lock 2 none, .lock 2 (some 1), .unlock 2,
    .unlock 2,
    .call 1 (.luatUartSendExtern 1 [0x42]), .lock 1 none, .unlock 1, .lock 1 none, .lock 1 none,
    .unlock 1, .unlock 1]

theorem never_deadlocked_iff_turns :
    (machine.stateOf (turnsOps.take 10)).pc 1 = .sendFlag 1 1 ∧
      (machine.stateOf (turnsOps.take 17)).pc 2 = .workFlush 1 ∧
      ¬ State.start.Deadlocked ∧ ∀ e ∈ machine.traceOf turnsOps, ¬ e.dst.Deadlocked := by
  have hexec : (machine.exec machine.init turnsOps).isSome = true := by decide
  have hok : machine.Along (fun _ e => NestOk e) [] machine.init turnsOps := by
    refine ⟨trivial, trivial, trivial, trivial, trivial, trivial, trivial, trivial, trivial, ?_,
      trivial, trivial, trivial, trivial, trivial, trivial, ?_, trivial, trivial, trivial, trivial,
      trivial, trivial, ?_, trivial, trivial, trivial, trivial⟩
    -- the first locks of the two sends, and of the worker
    · intro w port hw
      rcases w with _ | _ | _ | w <;> cases hw
    · intro _ u p len hu
      rcases u with _ | _ | _ | u <;> cases hu
    · intro w port hw
      rcases w with _ | _ | _ | w <;> cases hw
  exact ⟨rfl, rfl,
    (never_deadlocked_iff (Machine.run_exec hexec)).2 (Machine.forall_mem_traceOf hok)⟩

/-- The same, but the worker comes to the block that asks for data to send when thread 1 is in
the middle of its second send. -/
def crossingOps : List Act :=
  [.call 1 (.luatUartOpenExtern 1), .lock 1 none, .lock 1 none, .unlock 1, .unlock 1, .spawn 1 2,
    .call 1 (.luatUartSendExtern 1 [0x41]), .lock 1 none, .unlock 1, .lock 1 none, .lock 1 none,
    .unlock 1, .unlock 1,
    .uartRead 2 (.data []), .lock 2 none, .unlock 2,
    .call 1 (.luatUartSendExtern 1 [0x42]), .lock 1 none, .unlock 1, .lock 1 none,
    .lock 2 none]

/-- Both threads wait for good. -/
theorem sender_and_worker_deadlock :
    Run machine (machine.traceOf crossingOps) (machine.stateOf crossingOps) ∧
      (machine.stateOf crossingOps).holder .uartWaitSendData = some 1 ∧
      (machine.stateOf crossingOps).holder .uartWaitSend = some 2 ∧
      (machine.stateOf crossingOps).Deadlocked := by
  have hexec : (machine.exec machine.init crossingOps).isSome = true := by decide
  have hrun := Machine.run_exec hexec
  refine ⟨hrun, rfl, rfl, (deadlocked_iff (consistent_run hrun)).2 ?_⟩
  exact ⟨1, 2, 1, 1, 1, rfl, rfl⟩

end Uart
end LuatosPc
