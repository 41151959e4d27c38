import LuatosPc.Base.Fifo
import LuatosPc.Uart.Deadlock

/-!
# The output of the Windows backend

`luat_uart_send_extern` puts its bytes behind those already queued for the port in
`UART_WAIT_SEND_DATA`; a worker that finds the flag in `UART_WAIT_SEND` writes the queue
to its serial port and clears it, however much of it the serial port has taken.

* `step_output` — what a step does to the queue of a port: it writes from its front,
  loses what the serial port has not taken, and puts behind it what is sent.
* `SendLog` — the bytes of the sends that have returned; `SendLog.Tracks` — at most one
  send at a time is between queueing its bytes and returning.
* `uart_output_not_lost` — what the serial port has taken and what is queued is what was
  sent, if and only if every write takes the whole queue.
-/

namespace LuatosPc
namespace Uart

/-- What is queued for a port in `UART_WAIT_SEND_DATA`. -/
def Maps.queued (μ : Maps) (port : Port) : List UInt8 := (μ.uartWaitSendData port).getD []

/-! ## What a step does to a queue -/

/-- The port whose queue is used under the mutex that is locked here. -/
def Pc.queuePort : Pc → Option Port
  | .sendData port _ | .workFlush port | .closeLock .uartWaitSendData port => some port
  | _ => none

theorem Pc.queuePort_eq_some {pc : Pc} {port : Port} (h : pc.queuePort = some port) :
    (∃ data, pc = .sendData port data) ∨ pc = .workFlush port ∨
      pc = .closeLock .uartWaitSendData port := by
  unfold Pc.queuePort at h
  split at h
  · cases h
    exact Or.inl ⟨_, rfl⟩
  · cases h
    exact Or.inr (Or.inl rfl)
  · cases h
    exact Or.inr (Or.inr rfl)
  · cases h

/-- Under a mutex, the queue of any other port stays as it is. -/
theorem Pc.locked_queued_of_ne {pc : Pc} {port : Port} (h : pc.queuePort ≠ some port) (μ : Maps)
    (taken : Option Nat) : (pc.locked μ taken).1.queued port = μ.queued port := by
  have hother : ∀ {p : Port} (v : Option (List UInt8)), some p ≠ some port →
      (Function.update μ.uartWaitSendData p v port).getD [] = μ.queued port := by
    intro p v hp
    rw [Function.update_of_ne (fun hpp => hp (congrArg some hpp.symm))]
    rfl
  cases pc with
  | sendData p data => exact hother _ h
  | workFlush p =>
    simp only [Pc.locked]
    split
    · rfl
    · exact hother _ h
  | closeLock m p =>
    cases m with
    | uartWaitSendData => exact hother _ h
    | _ => rfl
  | readBuff | workBuff | workRecvCb | workClosed | workSend =>
    simp only [Pc.locked]
    split <;> rfl
  | _ => rfl

/-- Only a worker that flushes a queue writes to a serial port. -/
theorem Pc.locked_eq_wrote {pc : Pc} {μ : Maps} {taken : Option Nat} {port : Port}
    {bytes : List UInt8} (h : (pc.locked μ taken).2.2 = .wrote port bytes) :
    pc = .workFlush port := by
  revert h
  fun_cases Pc.locked μ taken pc <;> intro h <;> cases h
  rfl

theorem Pc.dropped_ne_wrote (pc : Pc) (port : Port) (bytes : List UInt8) :
    pc.dropped.2 ≠ .wrote port bytes := by
  fun_cases Pc.dropped pc <;> simp

/-- The bytes that a send queues for the port under the mutex. -/
def sentTo (port : Port) (e : Trans) : List UInt8 :=
  match e.act with
  | .lock t _ =>
    match e.src.pc t with
    | .sendData p data => if p = port then data else []
    | _ => []
  | _ => []

/-- The bytes that the serial port takes from a worker. -/
def wroteTo (port : Port) (e : Trans) : List UInt8 :=
  match e.out with
  | .wrote p bytes => if p = port then bytes else []
  | _ => []

/-- The bytes that a worker clears without the serial port having taken them. -/
def lostBy (port : Port) (e : Trans) : List UInt8 :=
  match e.act with
  | .lock t taken =>
    match e.src.pc t with
    | .workFlush p => if p = port then (e.src.maps.queued port).drop (taken.getD 0) else []
    | _ => []
  | _ => []

/-- A close removes the queue of the port. -/
def DropsQueue (port : Port) (e : Trans) : Prop :=
  ∃ t taken, e.act = .lock t taken ∧ e.src.pc t = .closeLock .uartWaitSendData port

/-- The transition uses or removes the queue of the port. -/
def UsesQueue (port : Port) (e : Trans) : Prop :=
  ∃ t taken, e.act = .lock t taken ∧ (e.src.pc t).queuePort = some port

section

variable {σ σ' : State} {a : Act} {o : Answer} {port : Port}

theorem queued_of_not_usesQueue (h : step σ a = some (σ', o))
    (hn : ¬ UsesQueue port ⟨σ, a, o, σ'⟩) : σ'.maps.queued port = σ.maps.queued port := by
  cases a with
  | lock t taken =>
    rw [maps_of_lock h]
    exact Pc.locked_queued_of_ne (fun hport => hn ⟨t, taken, rfl, hport⟩) _ _
  | _ => rw [maps_of_ne_lock h (by simp)]

/-- What a worker writes, it writes in the step that flushes the queue. -/
theorem step_wrote {bytes : List UInt8} (h : step σ a = some (σ', .wrote port bytes)) :
    ∃ t taken, a = .lock t taken ∧ σ.pc t = .workFlush port := by
  cases a with
  | lock t taken =>
    obtain ⟨m, -, -, -, ho⟩ := step_lock_eq h
    exact ⟨t, taken, rfl, Pc.locked_eq_wrote ho.symm⟩
  | call t c => simp [step] at h
  | unlock t =>
    simp only [step] at h
    split at h
    · exact absurd h (by simp)
    · simp only [Option.some.injEq, Prod.mk.injEq] at h
      exact absurd h.2 (Pc.dropped_ne_wrote _ _ _)
  | spawn t u =>
    simp only [step] at h
    split at h
    · simp at h
    · exact absurd h (by simp)
  | uartRead t r =>
    simp only [step] at h
    split at h
    · split at h <;> simp at h
    · exact absurd h (by simp)

theorem wroteTo_of_not_usesQueue (h : step σ a = some (σ', o))
    (hn : ¬ UsesQueue port ⟨σ, a, o, σ'⟩) : wroteTo port ⟨σ, a, o, σ'⟩ = [] := by
  unfold wroteTo
  split
  · rename_i p bytes ho
    refine if_neg ?_
    rintro rfl
    dsimp only at ho
    subst ho
    obtain ⟨t, taken, hact, hpc⟩ := step_wrote h
    exact hn ⟨t, taken, hact, by simp [hpc, Pc.queuePort]⟩
  · rfl

theorem sentTo_of_not_usesQueue {e : Trans} (hn : ¬ UsesQueue port e) : sentTo port e = [] := by
  unfold sentTo
  split
  · rename_i t taken hact
    split
    · rename_i p data hpc
      refine if_neg ?_
      rintro rfl
      exact hn ⟨t, taken, hact, by rw [hpc]; rfl⟩
    · rfl
  · rfl

theorem lostBy_of_not_usesQueue {e : Trans} (hn : ¬ UsesQueue port e) : lostBy port e = [] := by
  unfold lostBy
  split
  · rename_i t taken hact
    split
    · rename_i p hpc
      refine if_neg ?_
      rintro rfl
      exact hn ⟨t, taken, hact, by rw [hpc]; rfl⟩
    · rfl
  · rfl

/-- A flush writes the front of the queue and clears all of it. -/
theorem step_flush {t : Thread} {taken : Option Nat} (h : step σ (.lock t taken) = some (σ', o))
    (hpc : σ.pc t = .workFlush port) :
    σ'.maps.queued port = [] ∧
      wroteTo port ⟨σ, .lock t taken, o, σ'⟩ = (σ.maps.queued port).take (taken.getD 0) := by
  obtain ⟨m, -, -, rfl, rfl⟩ := step_lock_eq h
  rw [hpc]
  cases hq : σ.maps.uartWaitSendData port with
  | none => simp [Pc.locked, hq, Maps.queued, wroteTo]
  | some data => simp [Pc.locked, hq, Maps.queued, wroteTo, HashMap.insert]

/-- **One step** writes from the front of the queue, loses what is not taken, and puts
behind it what is sent. -/
theorem step_output (h : step σ a = some (σ', o)) (hdrop : ¬ DropsQueue port ⟨σ, a, o, σ'⟩) :
    wroteTo port ⟨σ, a, o, σ'⟩ ++ lostBy port ⟨σ, a, o, σ'⟩ ++ σ'.maps.queued port =
      σ.maps.queued port ++ sentTo port ⟨σ, a, o, σ'⟩ := by
  by_cases huse : UsesQueue port ⟨σ, a, o, σ'⟩
  · obtain ⟨t, taken, hact, hport⟩ := huse
    dsimp only at hact hport
    subst hact
    obtain ⟨data, hpc⟩ | hpc | hpc := Pc.queuePort_eq_some hport
    · obtain ⟨m, -, -, rfl, rfl⟩ := step_lock_eq h
      simp [wroteTo, lostBy, sentTo, hpc, Pc.locked, Maps.queued, HashMap.insert]
    · obtain ⟨hqueued, hwrote⟩ := step_flush h hpc
      rw [hqueued, hwrote]
      simp [lostBy, sentTo, hpc]
    · exact absurd ⟨t, taken, rfl, hpc⟩ hdrop
  · rw [wroteTo_of_not_usesQueue h huse, lostBy_of_not_usesQueue huse,
      sentTo_of_not_usesQueue huse, queued_of_not_usesQueue h huse, List.nil_append,
      List.nil_append, List.append_nil]

end

/-! ## Sends and what they return -/

/-- The bytes of the sends that have returned their length, and the send that has
queued its bytes and not returned yet. -/
structure SendLog where
  done : List UInt8
  pending : Option (Thread × List UInt8)

/-- What a transition adds to the log of a port. -/
def SendLog.next (port : Port) (log : SendLog) (e : Trans) : SendLog :=
  match e.act with
  | .lock t _ =>
    match e.src.pc t with
    | .sendData p data => if p = port then { log with pending := some (t, data) } else log
    | _ => log
  | .unlock t =>
    match log.pending, e.out with
    | some (u, data), .returned n =>
      if u = t ∧ n = data.length then ⟨log.done ++ data, none⟩ else log
    | _, _ => log
  | _ => log

/-- The log of the given transitions. -/
def sendsOf (port : Port) (tr : List Trans) : SendLog := tr.foldl (SendLog.next port) ⟨[], none⟩

/-- All bytes in the log. -/
def SendLog.bytes (log : SendLog) : List UInt8 := log.done ++ log.pending.elim [] Prod.snd

/-- The length that a send returns, once it has queued its bytes. -/
def Pc.sendLen : Pc → Option Nat
  | .sendFlag _ len | .sendDropFlag len | .sendDropData len => some len
  | _ => none

/-- The send on record has queued its bytes and is about to return their length. -/
def SendLog.Tracks (log : SendLog) (σ : State) : Prop :=
  ∀ t data, log.pending = some (t, data) → (σ.pc t).sendLen = some data.length

theorem Pc.holds_of_sendLen {pc : Pc} {len : Nat} (h : pc.sendLen = some len) :
    Lock.uartWaitSendData ∈ pc.holds := by
  unfold Pc.sendLen at h
  split at h
  · simp [Pc.holds]
  · simp [Pc.holds]
  · simp [Pc.holds]
  · cases h

section

variable {σ σ' : State} {a : Act} {o : Answer} {port : Port} {log : SendLog}

/-- A send that has queued its bytes stays where it is, goes on, or returns their
length. -/
theorem sendLen_step {u : Thread} {len : Nat} (hlen : (σ.pc u).sendLen = some len)
    (h : step σ a = some (σ', o)) :
    ((σ'.pc u).sendLen = some len ∧ ¬ (a = .unlock u ∧ ∃ n, o = .returned n)) ∨
      (a = .unlock u ∧ o = .returned len) := by
  obtain ⟨hnot, hsame⟩ | ⟨taken, rfl, hwants, hpc⟩ | ⟨rfl, hdrops, hpc, ho⟩ | ⟨hfree, -⟩ :=
    thread_step h u
  · refine Or.inl ⟨by rw [hsame, hlen], ?_⟩
    rintro ⟨rfl, -⟩
    simp [Act.threads] at hnot
  · refine Or.inl ⟨?_, by simp⟩
    rw [hpc]
    cases hσ : σ.pc u <;> simp [hσ, Pc.sendLen, Pc.wants] at hlen hwants
    simp [Pc.locked, Pc.sendLen, hlen]
  · cases hσ : σ.pc u <;> simp [hσ, Pc.sendLen, Pc.drops] at hlen hdrops
    · refine Or.inl ⟨by simp [hpc, hσ, Pc.dropped, Pc.sendLen, hlen], ?_⟩
      simp [ho, hσ, Pc.dropped]
    · exact Or.inr ⟨rfl, by simp [ho, hσ, Pc.dropped, hlen]⟩
  · cases hσ : σ.pc u <;> simp [hσ, Pc.sendLen, Pc.Free] at hlen hfree

/-- A send queues its bytes for the port. -/
def Pushes (port : Port) (t : Thread) (data : List UInt8) (e : Trans) : Prop :=
  ∃ taken, e.act = .lock t taken ∧ e.src.pc t = .sendData port data

theorem sentTo_of_not_pushes {e : Trans} (h : ∀ t data, ¬ Pushes port t data e) :
    sentTo port e = [] := by
  unfold sentTo
  split
  · rename_i t taken hact
    split
    · rename_i p data hpc
      refine if_neg ?_
      rintro rfl
      exact h t data ⟨taken, hact, hpc⟩
    · rfl
  · rfl

/-- The log stays as it is if no send queues its bytes and the one on record does not
return. -/
theorem SendLog.next_eq_self {e : Trans} (hpush : ∀ t data, ¬ Pushes port t data e)
    (hreturn : ∀ u data, log.pending = some (u, data) →
      ¬ (e.act = .unlock u ∧ e.out = .returned data.length)) : log.next port e = log := by
  unfold SendLog.next
  split
  · rename_i t taken hact
    split
    · rename_i p data hpc
      refine if_neg ?_
      rintro rfl
      exact hpush t data ⟨taken, hact, hpc⟩
    · rfl
  · rename_i t hact
    split
    · rename_i u data n hpending hout
      refine if_neg ?_
      rintro ⟨rfl, rfl⟩
      exact hreturn u data hpending ⟨hact, hout⟩
    · rfl
  · rfl

/-- A send that queues its bytes finds no other send between queueing and returning. -/
theorem SendLog.Tracks.pending_eq_none {t : Thread} {data : List UInt8} (hlog : log.Tracks σ)
    (hc : σ.Consistent) (h : step σ a = some (σ', o))
    (hpush : Pushes port t data ⟨σ, a, o, σ'⟩) : log.pending = none := by
  obtain ⟨taken, hact, hpc⟩ := hpush
  dsimp only at hact hpc
  subst hact
  obtain ⟨m, hwants, hfree, -⟩ := step_lock_eq h
  rw [hpc, Pc.wants, Option.some.injEq] at hwants
  subst hwants
  cases hpending : log.pending with
  | none => rfl
  | some p =>
    have hholds := (hc .uartWaitSendData p.1).2 (Pc.holds_of_sendLen (hlog p.1 p.2 hpending))
    exact absurd (hfree.symm.trans hholds) (by simp)

/-- **One step of the log.** -/
theorem SendLog.Tracks.next (port : Port) (hlog : log.Tracks σ) (hc : σ.Consistent)
    (h : step σ a = some (σ', o)) :
    (log.next port ⟨σ, a, o, σ'⟩).Tracks σ' ∧
      (log.next port ⟨σ, a, o, σ'⟩).bytes = log.bytes ++ sentTo port ⟨σ, a, o, σ'⟩ := by
  by_cases hpush : ∃ t data, Pushes port t data ⟨σ, a, o, σ'⟩
  · obtain ⟨t, data, hpush⟩ := hpush
    have hnone := hlog.pending_eq_none hc h hpush
    obtain ⟨taken, hact, hpc⟩ := hpush
    dsimp only at hact hpc
    subst hact
    have hnext : log.next port ⟨σ, .lock t taken, o, σ'⟩ = ⟨log.done, some (t, data)⟩ := by
      simp [SendLog.next, hpc]
    rw [hnext]
    constructor
    · rintro u data' ⟨⟩
      rw [(pc_of_lock h).1, hpc]
      rfl
    · simp [SendLog.bytes, hnone, sentTo, hpc]
  · push Not at hpush
    rw [sentTo_of_not_pushes hpush, List.append_nil]
    by_cases hreturn : ∃ u data, log.pending = some (u, data) ∧ a = .unlock u ∧
        o = .returned data.length
    · obtain ⟨u, data, hpending, rfl, rfl⟩ := hreturn
      have hnext : log.next port ⟨σ, .unlock u, .returned data.length, σ'⟩ =
          ⟨log.done ++ data, none⟩ := by
        simp [SendLog.next, hpending]
      rw [hnext]
      refine ⟨?_, by simp [SendLog.bytes, hpending]⟩
      rintro u data' ⟨⟩
    · push Not at hreturn
      have hnext : log.next port ⟨σ, a, o, σ'⟩ = log := by
        refine SendLog.next_eq_self hpush ?_
        rintro u data hpending ⟨hact, hout⟩
        exact hreturn u data hpending hact hout
      rw [hnext]
      refine ⟨?_, rfl⟩
      intro u data hpending
      obtain ⟨hlen, -⟩ | ⟨hact, hout⟩ := sendLen_step (hlog u data hpending) h
      · exact hlen
      · exact absurd hout (hreturn u data hpending hact)

end

/-- **The log of a part of a run** holds the bytes that were queued. -/
theorem sendsOf_path {σ₀ σ : State} {tr : List Trans} (h : Path machine σ₀ tr σ)
    (hc : σ₀.Consistent) (port : Port) :
    (sendsOf port tr).Tracks σ ∧ (sendsOf port tr).bytes = tr.flatMap (sentTo port) := by
  refine (h.history_invariant (C := fun _ => True)
    (I := fun tr σ => σ.Consistent ∧ (sendsOf port tr).Tracks σ ∧
      (sendsOf port tr).bytes = tr.flatMap (sentTo port)) (fun _ _ => trivial) ?_ ?_).2
  · refine ⟨hc, ?_, rfl⟩
    rintro t data ⟨⟩
  · rintro tr σ a σ' o ⟨hc, hlog, hbytes⟩ hs -
    obtain ⟨hlog', hbytes'⟩ := hlog.next port hc hs
    refine ⟨step_consistent hc hs, ?_⟩
    rw [sendsOf, List.foldl_append, List.flatMap_append, List.flatMap_singleton, ← hbytes]
    exact ⟨hlog', hbytes'⟩

/-- **The output of a port.**  From any point at which nothing is queued for the port, and
until a close removes its queue: the bytes that the serial port has taken, followed by
those still queued, are the bytes of the sends that have returned their length (and of the
one that is about to), if and only if no worker has cleared bytes that the serial port had
not taken.  Between queueing its bytes and returning there is one send at most. -/
theorem uart_output_not_lost {tr : List Trans} {σ : State} (h : Run machine tr σ)
    {pre post : List Trans} {c : Trans} (he : tr = pre ++ c :: post) {port : Port}
    (hempty : c.dst.maps.queued port = []) (hdrop : ∀ e ∈ post, ¬ DropsQueue port e) :
    (post.flatMap (wroteTo port) ++ σ.maps.queued port = (sendsOf port post).bytes ↔
      ∀ e ∈ post, lostBy port e = []) ∧
    (sendsOf port post).Tracks σ ∧
    ((∀ t, (σ.pc t).sendLen = none) → (sendsOf port post).bytes = (sendsOf port post).done) := by
  obtain ⟨hpre, hstep⟩ := h.split he
  have hpath := h.path he
  obtain ⟨htracks, hbytes⟩ := sendsOf_path hpath (step_consistent (consistent_run hpre) hstep) port
  refine ⟨?_, htracks, ?_⟩
  · rw [hbytes]
    obtain ⟨ys, hys, hiff⟩ := hpath.lossless_iff (R := fun σ xs => σ.maps.queued port = xs)
      (C := fun e => ¬ DropsQueue port e) hdrop hempty fun σ a σ' o xs hx hs hC =>
        ⟨_, rfl, hx ▸ step_output hs hC⟩
    rw [hys]
    exact hiff
  · intro hnone
    cases hpending : (sendsOf port post).pending with
    | none => simp [SendLog.bytes, hpending]
    | some p =>
      have hlen := htracks p.1 p.2 hpending
      rw [hnone p.1] at hlen
      exact absurd hlen (by simp)

/-- Thread 0 opens port 1 and sends two bytes, of which the serial port takes as many as
given; then it sends a third. -/
def outputOps (taken : Nat) : List Act :=
  [.call 0 (.luatUartOpenExtern 1), .lock 0 none, .lock 0 none, .unlock 0, .unlock 0, .spawn 0 1,
    .call 0 (.luatUartSendExtern 1 [1, 2]), .lock 0 none, .unlock 0, .lock 0 none, .lock 0 none,
    .unlock 0, .unlock 0, .uartRead 1 (.data []), .lock 1 none, .unlock 1, .lock 1 none,
    .lock 1 (some taken), .unlock 1, .unlock 1, .call 0 (.luatUartSendExtern 1 [3]), .lock 0 none,
    .unlock 0, .lock 0 none, .lock 0 none, .unlock 0, .unlock 0]

theorem uart_output_not_lost_allTaken :
    ((machine.traceOf (outputOps 2)).drop 6).flatMap (wroteTo 1) = [1, 2] ∧
      ((machine.traceOf (outputOps 2)).drop 6).flatMap (wroteTo 1) ++
        (machine.stateOf (outputOps 2)).maps.queued 1 =
          (sendsOf 1 ((machine.traceOf (outputOps 2)).drop 6)).bytes := by
  have h5 : 5 < (machine.traceOf (outputOps 2)).length := by decide +kernel
  have hthreads : ∀ a ∈ (outputOps 2).drop 6, ∀ t ∈ a.threads, t ∈ [0, 1] := by decide
  -- nobody closes the port
  have hplain : ∀ e ∈ (machine.traceOf (outputOps 2)).drop 6, ∀ t ∈ [0, 1],
      e.src.pc t ≠ .closeLock .uartWaitSendData 1 := by decide +kernel
  refine ⟨by decide +kernel, ?_⟩
  refine (uart_output_not_lost (Machine.run_exec (by decide +kernel)) (Machine.traceOf_split h5)
    rfl ?_).1.2 ?_
  · rintro e he ⟨t, taken, hact, hpc⟩
    have ht : t ∈ [0, 1] :=
      hthreads _ (Machine.act_mem_of_mem_drop he) t (by rw [hact]; exact List.mem_singleton_self t)
    exact hplain e he t ht hpc
  · decide +kernel

/-- The serial port takes one byte of the two; the other one is gone. -/
theorem uart_output_lost :
    Run machine (machine.traceOf (outputOps 1)) (machine.stateOf (outputOps 1)) ∧
      (machine.traceOf (outputOps 1)).flatMap (wroteTo 1) = [1] ∧
      (machine.stateOf (outputOps 1)).maps.queued 1 = [3] ∧
      (sendsOf 1 (machine.traceOf (outputOps 1))).done = [1, 2, 3] :=
  ⟨Machine.run_exec (by decide +kernel), by decide +kernel, by decide +kernel, by decide +kernel⟩

end Uart
end LuatosPc
