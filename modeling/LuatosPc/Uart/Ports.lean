import LuatosPc.Uart.Input
import LuatosPc.Uart.Output

/-!
# Open and closed ports

`check_port_is_open` looks for a mark in `UART_IS_CLOSED`: a close and a fatal read error
of a worker set it, an open removes it, and a port without a mark is taken to be open.  An
open resets neither the queue nor the flag of the port.

* `lastMark` — what the last open, close or fatal error made of a port, if there was one;
  `run_uartIsClosed` — the map says the same, but does not tell a port that is open from
  one that never was.
* `uartBuff_of_never_marked` — a port that was never opened has no vector to read from.
* `sendArgs_path` — a send under way was called.
* `only_open_ports_accept` — which sends and reads are turned away, and where the bytes
  that a worker writes come from.
-/

namespace LuatosPc
namespace Uart

/-- What happens to the port under the mutex that is locked here: an open (`true`), or a
close or a fatal read error (`false`). -/
def Pc.markFor (port : Port) : Pc → Option Bool
  | .openClosed p => if p = port then some true else none
  | .closeLock .uartIsClosed p | .workFatal p => if p = port then some false else none
  | _ => none

/-- What a transition makes of the port. -/
def markOf (port : Port) (e : Trans) : Option Bool :=
  match e.act with
  | .lock t _ => (e.src.pc t).markFor port
  | _ => none

/-- What the last open, close or fatal read error made of the port. -/
def lastMark (port : Port) (tr : List Trans) : Option Bool :=
  tr.foldl (fun mark e => (markOf port e).or mark) none

theorem lastMark_concat (port : Port) (tr : List Trans) (e : Trans) :
    lastMark port (tr ++ [e]) = (markOf port e).or (lastMark port tr) := by
  simp [lastMark]

/-! ## What the map says -/

/-- The entry of `UART_IS_CLOSED` after a mark. -/
def closedEntry : Option Bool → Option Bool
  | some false => some true
  | _ => none

theorem Pc.locked_uartIsClosed (pc : Pc) (μ : Maps) (taken : Option Nat) (port : Port) :
    (pc.locked μ taken).1.uartIsClosed port =
      if pc.markFor port = none then μ.uartIsClosed port else closedEntry (pc.markFor port) := by
  cases pc with
  | openClosed p =>
    by_cases hp : p = port
    · subst hp
      simp [Pc.locked, Pc.markFor, HashMap.remove, closedEntry]
    · simp [Pc.locked, Pc.markFor, HashMap.remove, hp, Function.update_of_ne (Ne.symm hp)]
  | workFatal p =>
    by_cases hp : p = port
    · subst hp
      simp [Pc.locked, Pc.markFor, HashMap.insert, closedEntry]
    · simp [Pc.locked, Pc.markFor, HashMap.insert, hp, Function.update_of_ne (Ne.symm hp)]
  | closeLock m p =>
    cases m with
    | uartIsClosed =>
      by_cases hp : p = port
      · subst hp
        simp [Pc.locked, Pc.markFor, Maps.closePort, HashMap.insert, closedEntry]
      · simp [Pc.locked, Pc.markFor, Maps.closePort, HashMap.insert, hp,
          Function.update_of_ne (Ne.symm hp)]
    | _ => rfl
  | readBuff | workBuff | workRecvCb | workClosed | workSend | workFlush =>
    simp only [Pc.locked]
    split <;> rfl
  | _ => rfl

/-- **One step** writes the entry of a port if it marks the port. -/
theorem step_uartIsClosed {σ σ' : State} {a : Act} {o : Answer} (h : step σ a = some (σ', o))
    (port : Port) :
    σ'.maps.uartIsClosed port = if markOf port ⟨σ, a, o, σ'⟩ = none then
      σ.maps.uartIsClosed port else closedEntry (markOf port ⟨σ, a, o, σ'⟩) := by
  cases a with
  | lock t taken =>
    rw [maps_of_lock h]
    exact Pc.locked_uartIsClosed _ _ _ _
  | _ =>
    rw [maps_of_ne_lock h (by simp)]
    rfl

/-- **The map tells closed ports** from the others, in every reachable state. -/
theorem run_uartIsClosed {tr : List Trans} {σ : State} (h : Run machine tr σ) (port : Port) :
    σ.maps.uartIsClosed port = closedEntry (lastMark port tr) := by
  induction h with
  | start => rfl
  | @snoc tr σ σ' a o _ hs ih =>
    rw [lastMark_concat, step_uartIsClosed hs port, ih]
    cases markOf port ⟨σ, a, o, σ'⟩ with
    | none => rfl
    | some b => rfl

/-- The test of a send or a read. -/
theorem run_checkPortIsOpen {tr : List Trans} {σ : State} (h : Run machine tr σ) (port : Port) :
    σ.maps.checkPortIsOpen port = decide (lastMark port tr ≠ some false) := by
  unfold Maps.checkPortIsOpen
  rw [run_uartIsClosed h port]
  cases lastMark port tr with
  | none => rfl
  | some b => cases b <;> rfl

/-- **A port that was never opened nor closed has no vector**, unless an open is about to
mark it. -/
theorem uartBuff_of_never_marked {tr : List Trans} {σ : State} (h : Run machine tr σ)
    {port : Port} (hmark : lastMark port tr = none) :
    σ.maps.uartBuff port = none ∨ ∃ u, σ.pc u = .openClosed port := by
  induction h with
  | start => exact Or.inl rfl
  | @snoc tr σ σ' a o _ hs ih =>
    rw [lastMark_concat, Option.or_eq_none_iff] at hmark
    obtain ⟨hnow, hbefore⟩ := hmark
    obtain hnone | ⟨u, hu⟩ := ih hbefore
    · by_cases htouch : Touches port ⟨σ, a, o, σ'⟩
      · obtain ⟨t, taken, hact, hport⟩ := htouch
        dsimp only at hact hport
        subst hact
        obtain ⟨len, hpc⟩ | ⟨data, hpc⟩ | hpc | hpc := Pc.buffPort_eq_some hport
        · exact Or.inl (by simp [maps_of_lock hs, hpc, Pc.locked, hnone])
        · exact Or.inl (by simp [maps_of_lock hs, hpc, Pc.locked, hnone])
        · exact Or.inr ⟨t, by rw [(pc_of_lock hs).1, hpc]; rfl⟩
        · refine Or.inl ?_
          rw [maps_of_lock hs, hpc]
          exact Function.update_self _ _ _
      · exact Or.inl ((uartBuff_of_not_touches hs htouch).trans hnone)
    · obtain ⟨-, hsame⟩ | ⟨taken, rfl, -⟩ | ⟨-, hdrops, -⟩ | ⟨hfree, -⟩ := thread_step hs u
      · exact Or.inr ⟨u, hsame.trans hu⟩
      · simp [markOf, hu, Pc.markFor] at hnow
      · rw [hu] at hdrops
        exact absurd rfl hdrops
      · rw [hu] at hfree
        exact absurd hfree id

/-! ## Sends under way -/

/-- What a send was called with, as long as it has not queued its bytes. -/
def Pc.sendArgs : Pc → Option (Port × List UInt8)
  | .sendCheck port data | .sendChecked _ port data | .sendData port data => some (port, data)
  | _ => none

/-- A send under way was under way before, or is called now. -/
theorem sendArgs_step {σ σ' : State} {a : Act} {o : Answer} (h : step σ a = some (σ', o))
    {t : Thread} {port : Port} {data : List UInt8}
    (hargs : (σ'.pc t).sendArgs = some (port, data)) :
    (σ.pc t).sendArgs = some (port, data) ∨ a = .call t (.luatUartSendExtern port data) := by
  obtain ⟨-, hsame⟩ | ⟨taken, -, -, hpc⟩ | ⟨-, -, hpc, -⟩ | ⟨-, -, hcall⟩ := thread_step h t
  · rw [hsame] at hargs
    exact Or.inl hargs
  · rw [hpc] at hargs
    left
    revert hargs
    fun_cases Pc.locked σ.maps taken (σ.pc t) <;> simp [Pc.sendArgs]
  · rw [hpc] at hargs
    left
    revert hargs
    fun_cases Pc.dropped (σ.pc t) <;> simp [Pc.sendArgs]
  · right
    obtain ⟨c, rfl, hpc⟩ | hpc | hwork := hcall
    · rw [hpc] at hargs
      cases c <;> simp [Call.entry, Pc.sendArgs] at hargs
      rw [hargs.1, hargs.2]
    · rw [hpc] at hargs
      cases hargs
    · revert hargs hwork
      cases σ'.pc t <;> simp [Pc.sendArgs, Pc.AtWork]

/-- **A send under way** was so at the beginning, or has been called since. -/
theorem sendArgs_path {σ₀ σ : State} {tr : List Trans} (h : Path machine σ₀ tr σ) {t : Thread}
    {port : Port} {data : List UInt8} (hargs : (σ.pc t).sendArgs = some (port, data)) :
    (σ₀.pc t).sendArgs = some (port, data) ∨
      ∃ e ∈ tr, e.act = .call t (.luatUartSendExtern port data) := by
  induction h with
  | nil => exact Or.inl hargs
  | snoc _ hs ih =>
    obtain hbefore | rfl := sendArgs_step hs hargs
    · refine (ih hbefore).imp id ?_
      rintro ⟨e, hmem, hact⟩
      exact ⟨e, List.mem_append_left _ hmem, hact⟩
    · exact Or.inr ⟨_, List.mem_append_right _ (List.mem_singleton_self _), rfl⟩

/-! ## What is turned away, and what is written -/

/-- The send or read was told that its port is closed, and still holds the mutex. -/
def Pc.Refused : Pc → Prop
  | .sendChecked isOpen .. | .readChecked isOpen .. => isOpen = false
  | _ => False

/-- A send or read at the test of its port. -/
def Pc.Checks (port : Port) (pc : Pc) : Prop :=
  (∃ data, pc = .sendCheck port data) ∨ ∃ len, pc = .readCheck port len

section

variable {σ σ' : State} {a : Act} {o : Answer} {port : Port} {t : Thread}

/-- The test leaves the maps as they are. -/
theorem step_check {taken : Option Nat} (h : step σ (.lock t taken) = some (σ', o))
    (hpc : (σ.pc t).Checks port) :
    σ'.maps = σ.maps ∧ ((σ'.pc t).Refused ↔ σ.maps.checkPortIsOpen port = false) := by
  rw [maps_of_lock h, (pc_of_lock h).1]
  obtain ⟨data, hpc⟩ | ⟨len, hpc⟩ := hpc
  · rw [hpc]
    exact ⟨rfl, Iff.rfl⟩
  · rw [hpc]
    exact ⟨rfl, Iff.rfl⟩

/-- A call that is refused returns 0. -/
theorem step_refused (h : step σ a = some (σ', o)) (hpc : (σ.pc t).Refused)
    (ht : t ∈ a.threads) : a = .unlock t ∧ o = .returned 0 ∧ σ'.pc t = .idle ∧
      σ'.maps = σ.maps := by
  obtain ⟨hnot, -⟩ | ⟨taken, -, hwants, -⟩ | ⟨rfl, -, hpc', ho⟩ | ⟨hfree, -⟩ := thread_step h t
  · exact absurd ht hnot
  · revert hpc hwants
    cases σ.pc t <;> simp [Pc.Refused, Pc.wants]
  · have hdropped : (σ.pc t).dropped = (.idle, .returned 0) := by
      revert hpc
      cases σ.pc t <;> simp +contextual [Pc.Refused, Pc.dropped]
    rw [hdropped] at hpc' ho
    exact ⟨rfl, ho, hpc', maps_of_ne_lock h (by simp)⟩
  · revert hpc hfree
    cases σ.pc t <;> simp [Pc.Refused, Pc.Free]

/-- **One step** writes from the queue of the port and what is sent to it, in this
order. -/
theorem step_output_sublist (h : step σ a = some (σ', o)) :
    (wroteTo port ⟨σ, a, o, σ'⟩ ++ σ'.maps.queued port).Sublist
      (σ.maps.queued port ++ sentTo port ⟨σ, a, o, σ'⟩) := by
  by_cases hdrop : DropsQueue port ⟨σ, a, o, σ'⟩
  · obtain ⟨t, taken, hact, hpc⟩ := hdrop
    dsimp only at hact hpc
    subst hact
    obtain ⟨m, -, -, rfl, rfl⟩ := step_lock_eq h
    simp [wroteTo, hpc, Pc.locked, Maps.queued, Maps.closePort, HashMap.remove]
  · rw [← step_output h hdrop, List.append_assoc]
    exact (List.sublist_append_right _ _).append_left _

end

/-- **Which sends and reads are turned away, and what workers write.**  A send or read
that finds its port not open leaves the maps alone at the test, and is refused if and only
if the port was closed, or its worker failed, at some point; once refused, it returns 0 and
has changed nothing.  A read that passes the test on a port that was never opened finds no
vector, and returns 0 likewise.  After an open of the port at which its queue is empty and
no send to it is under way, workers write what was sent to the port since, in this order,
and every one of these sends was called after the open. -/
theorem only_open_ports_accept {tr : List Trans} {σ : State} (h : Run machine tr σ)
    {pre post : List Trans} {e : Trans} (he : tr = pre ++ e :: post) (port : Port) :
    (∀ t taken, e.act = .lock t taken → (e.src.pc t).Checks port → lastMark port pre ≠ some true →
      e.dst.maps = e.src.maps ∧ ((e.dst.pc t).Refused ↔ lastMark port pre ≠ none)) ∧
    (∀ t, (e.src.pc t).Refused → t ∈ e.act.threads →
      e.act = .unlock t ∧ e.out = .returned 0 ∧ e.dst.pc t = .idle ∧ e.dst.maps = e.src.maps) ∧
    (∀ t taken len, e.act = .lock t taken → e.src.pc t = .readBuff port len →
      lastMark port pre = none → e.dst.pc t = .readDrop [] ∧ e.dst.maps = e.src.maps) ∧
    (markOf port e = some true → e.dst.maps.queued port = [] →
      (∀ t data, (e.dst.pc t).sendArgs ≠ some (port, data)) →
        (post.flatMap (wroteTo port)).Sublist (post.flatMap (sentTo port)) ∧
        ∀ mid g rest, post = mid ++ g :: rest → ∀ t data, Pushes port t data g →
          ∃ c ∈ mid, c.act = .call t (.luatUartSendExtern port data)) := by
  obtain ⟨hpre, hstep⟩ := h.split he
  have hpath := h.path he
  refine ⟨?_, ?_, ?_, ?_⟩
  · intro t taken hact hpc hmark
    rw [hact] at hstep
    obtain ⟨hmaps, hrefused⟩ := step_check hstep hpc
    refine ⟨hmaps, hrefused.trans ?_⟩
    rw [run_checkPortIsOpen hpre port, decide_eq_false_iff_not, not_not]
    cases hlast : lastMark port pre with
    | none => simp
    | some b =>
      cases b with
      | false => simp
      | true => exact absurd hlast hmark
  · intro t hpc ht
    exact step_refused hstep hpc ht
  · intro t taken len hact hpc hmark
    rw [hact] at hstep
    have hnone : e.src.maps.uartBuff port = none := by
      obtain hnone | ⟨u, hu⟩ := uartBuff_of_never_marked hpre hmark
      · exact hnone
      · -- the open that is about to mark the port holds the mutex
        obtain ⟨m, hwants, hfree, -⟩ := step_lock_eq hstep
        rw [hpc, Pc.wants, Option.some.injEq] at hwants
        subst hwants
        have hholds : Lock.uartBuff ∈ (e.src.pc u).holds := by
          rw [hu]
          exact List.mem_singleton_self _
        exact absurd (hfree.symm.trans ((consistent_run hpre .uartBuff u).2 hholds)) (by simp)
    rw [maps_of_lock hstep, (pc_of_lock hstep).1, hpc]
    simp [Pc.locked, hnone]
  · intro _ hempty hsend
    constructor
    · have hsub : ∃ ys, σ.maps.queued port = ys ∧
          (post.flatMap (wroteTo port) ++ ys).Sublist ([] ++ post.flatMap (sentTo port)) :=
        hpath.lossy_fifo (R := fun σ xs => σ.maps.queued port = xs) (C := fun _ => True)
          (fun _ _ => trivial) hempty
          fun σ a σ' o xs hx hs _ => ⟨_, rfl, hx ▸ step_output_sublist hs⟩
      obtain ⟨ys, -, hsub⟩ := hsub
      exact (List.sublist_append_left _ _).trans hsub
    · rintro mid g rest hsplit t data ⟨taken, -, hpc⟩
      have hargs : (g.src.pc t).sendArgs = some (port, data) := by
        rw [hpc]
        rfl
      have htr : tr = (pre ++ e :: mid) ++ g :: rest := by
        rw [he, hsplit]
        simp
      have hmid : Run machine (pre ++ e :: mid) g.src := (h.split htr).1
      exact (sendArgs_path (hmid.path rfl) hargs).resolve_left (hsend t data)

/-- Thread 0 opens port 1, sends a byte that the worker writes, closes the port and sends
another byte. -/
def portsOps : List Act :=
  [.call 0 (.luatUartOpenExtern 1), .lock 0 none, .lock 0 none, .unlock 0, .unlock 0, .spawn 0 1,
    .call 0 (.luatUartSendExtern 1 [65]), .lock 0 none, .unlock 0, .lock 0 none, .lock 0 none,
    .unlock 0, .unlock 0, .uartRead 1 (.data []), .lock 1 none, .unlock 1, .lock 1 none,
    .lock 1 (some 1), .unlock 1, .unlock 1, .call 0 (.luatUartCloseExtern 1), .lock 0 none,
    .unlock 0, .lock 0 none, .unlock 0, .lock 0 none, .unlock 0, .lock 0 none, .unlock 0,
    .lock 0 none, .unlock 0, .lock 0 none, .unlock 0, .call 0 (.luatUartSendExtern 1 [66]),
    .lock 0 none, .unlock 0]

theorem only_open_ports_accept_closed :
    ((machine.traceOf portsOps).drop 3).flatMap (wroteTo 1) = [65] ∧
      (((machine.traceOf portsOps).drop 3).flatMap (wroteTo 1)).Sublist
        (((machine.traceOf portsOps).drop 3).flatMap (sentTo 1)) ∧
      ∃ e ∈ machine.traceOf portsOps, (e.src.pc 0).Checks 1 ∧ (e.dst.pc 0).Refused ∧
        e.dst.maps = e.src.maps := by
  have hrun : Run machine (machine.traceOf portsOps) (machine.stateOf portsOps) :=
    Machine.run_exec (by decide +kernel)
  have h2 : 2 < (machine.traceOf portsOps).length := by decide +kernel
  have h34 : 34 < (machine.traceOf portsOps).length := by decide +kernel
  -- when the port is opened, thread 0 is at the open, and no other thread anywhere
  have hsend : ∀ t, ((machine.traceOf portsOps)[2].dst.pc t).sendArgs = none := by
    intro t
    cases t with
    | zero => rfl
    | succ t => rfl
  refine ⟨by decide +kernel, ?_, ?_⟩
  · refine ((only_open_ports_accept hrun (Machine.traceOf_split h2) 1).2.2.2 rfl rfl ?_).1
    intro t data
    rw [hsend t]
    exact Option.some_ne_none _ |>.symm
  · obtain ⟨hmaps, hrefused⟩ := (only_open_ports_accept hrun (Machine.traceOf_split h34) 1).1 0 none rfl
      (Or.inl ⟨[66], rfl⟩) (by decide +kernel)
    exact ⟨_, List.getElem_mem h34, Or.inl ⟨[66], rfl⟩, hrefused.2 (by decide +kernel), hmaps⟩

/-- Thread 0 sends a byte to port 1, which was never opened, and opens the port. -/
def earlyOps : List Act :=
  [.call 0 (.luatUartSendExtern 1 [65]), .lock 0 none, .unlock 0, .lock 0 none, .lock 0 none,
    .unlock 0, .unlock 0, .call 0 (.luatUartOpenExtern 1), .lock 0 none, .lock 0 none, .unlock 0,
    .unlock 0, .spawn 0 1, .uartRead 1 (.data []), .lock 1 none, .unlock 1, .lock 1 none,
    .lock 1 (some 1)]

/-- The send returns 1 and has queued its byte; the worker writes it after the open. -/
theorem unopened_port_accepts :
    Run machine (machine.traceOf earlyOps) (machine.stateOf earlyOps) ∧
      lastMark 1 ((machine.traceOf earlyOps).take 7) = none ∧
      ((machine.traceOf earlyOps)[6]?.map Transition.out = some (.returned 1)) ∧
      ((machine.traceOf earlyOps)[6]?.map fun e => e.dst.maps.queued 1) = some [65] ∧
      ((machine.traceOf earlyOps)[9]?.map (markOf 1)) = some (some true) ∧
      ((machine.traceOf earlyOps).drop 10).flatMap (wroteTo 1) = [65] ∧
      ((machine.traceOf earlyOps).drop 10).flatMap (sentTo 1) = [] :=
  ⟨Machine.run_exec (by decide +kernel), by decide +kernel, by decide +kernel, by decide +kernel,
    by decide +kernel, by decide +kernel, by decide +kernel⟩

end Uart
end LuatosPc
