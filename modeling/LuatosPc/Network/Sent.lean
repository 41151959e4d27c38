import LuatosPc.Base.Ledger
import LuatosPc.Network.Run

/-!
# Every accepted send is answered once

`libuv_socket_send` hands the data to libuv and returns; what became of it is told by
`on_sent` or `on_sent_udp`, which libuv runs once for each request.  The callbacks of a
slot may run in any order, between any other calls.

* `accepted`, `answered`, `Adapter.owed` — the sends that an action adds to the requests
  of libuv, those it answers, and those that are open in a state.
* `step_owed` — the books of one step; `txOk_opEvents` — the TX_OK events of one step.
* `sends_answered_once` — the books of a run: the sends accepted are those answered and
  those open, and the TX_OK events are the answers that report success.
-/

namespace LuatosPc
namespace Libuv

open Adapter

variable {β : Type}

/-- The send that a callback answers: its slot and its length. -/
def Callback.sent? : Callback → Option (Slot × UInt32)
  | .onSent s len | .onSentUdp s len => some (s, len)
  | _ => none

/-- The sends that libuv has not answered yet. -/
def Adapter.owed (σ : Adapter β) : Multiset (Slot × UInt32) :=
  (σ.pending : Multiset Callback).filterMap Callback.sent?

/-- The send that libuv takes on in a transition. -/
def accepted (e : Trans β) : Multiset (Slot × UInt32) :=
  match e.act with
  | .send id tag len ret =>
    match e.src.checkSocketId id tag with
    | none => 0
    | some s => if len ≠ 0 ∧ (e.src.sockets s).state = .connected ∧ ret = 0 then {(s, len)} else 0
  | _ => 0

/-- The send that libuv answers in a transition. -/
def answered (e : Trans β) : Multiset (Slot × UInt32) :=
  match e.act with
  | .onSent s len _ _ | .onSentUdp s len _ _ => {(s, len)}
  | _ => 0

/-- The slot and the length of a TX_OK event. -/
def NwEvent.txOk? (ev : NwEvent) : Option (Slot × Nat) :=
  if ev.id = .socketTxOk then some (ev.slot, ev.param2) else none

/-- The answer of a transition, if it reports success and the report could be posted. -/
def reportedOk (e : Trans β) : List (Slot × Nat) :=
  match e.act with
  | .onSent s len status posted | .onSentUdp s len status posted =>
    if status = 0 ∧ posted = true then [(s, len.toNat)] else []
  | _ => []

/-! ## The books of one step -/

namespace Adapter

section

-- a callback asks libuv for nothing
variable (σ : Adapter β) (s : Slot) (posted : Bool)

theorem onConnect_pending (status readRet : Int) :
    (σ.onConnect s status readRet posted).pending = σ.pending := by
  unfold onConnect
  dsimp only
  split
  · simp
  · split
    · simp
    · split <;> simp

theorem onShutdown_pending : (σ.onShutdown s posted).pending = σ.pending := by
  unfold onShutdown
  split <;> simp

theorem onClose_pending : (σ.onClose s posted).pending = σ.pending := by
  unfold onClose
  split <;> simp

theorem onSent_pending (len : UInt32) (status : Int) :
    (σ.onSent s len status posted).pending = σ.pending := by
  unfold onSent
  split <;> simp

theorem stopReading_pending (r : ReadResult β) : (stopReading σ s r).pending = σ.pending := by
  cases r <;> rfl

theorem onRecv_pending (r : ReadResult β) (room : Bool) :
    (σ.onRecv s r room posted).pending = σ.pending := by
  unfold onRecv
  split
  · split
    · rfl
    · split <;> simp
  · split <;> simp
  · rfl
  · split
    · simp
    · split <;> simp

theorem onRecvUdp_pending (d : Option (UdpData β)) (room : Bool) :
    (σ.onRecvUdp s d room posted).pending = σ.pending := by
  unfold onRecvUdp
  split
  · rfl
  · split
    · rfl
    · split <;> simp

end

variable {σ σ' : Adapter β}

theorem owed_of_pending (h : σ'.pending = σ.pending) : σ'.owed = σ.owed := by
  simp only [owed, h]

theorem owed_submit (σ : Adapter β) {c : Callback} (h : c.sent? = none) :
    (σ.submit c).owed = σ.owed := by
  simp only [owed, submit_pending, ← Multiset.coe_add, Multiset.filterMap_add]
  rw [Multiset.coe_singleton, ← Multiset.cons_zero, Multiset.filterMap_cons_none _ _ h]
  simp

theorem owed_submit_sent (σ : Adapter β) {c : Callback} {x : Slot × UInt32}
    (h : c.sent? = some x) : (σ.submit c).owed = σ.owed + {x} := by
  simp only [owed, submit_pending, ← Multiset.coe_add, Multiset.filterMap_add]
  rw [Multiset.coe_singleton, ← Multiset.cons_zero, Multiset.filterMap_cons_some _ _ _ h]
  simp

/-- A callback that runs is owed no more. -/
theorem owed_fire {c : Callback} (hc : c ∈ σ.pending) {f : Adapter β → Adapter β}
    (hf : ∀ τ, (f τ).pending = τ.pending) :
    (match c.sent? with | none => 0 | some x => {x}) +
      (f { σ with pending := σ.pending.erase c }).owed = σ.owed := by
  have hcons : c ::ₘ ((σ.pending.erase c : List Callback) : Multiset Callback) = σ.pending := by
    rw [← Multiset.coe_erase]
    exact Multiset.cons_erase (Multiset.mem_coe.2 hc)
  simp only [owed, hf]
  rw [← hcons]
  cases hsent : c.sent? with
  | none => rw [Multiset.filterMap_cons_none _ _ hsent]; simp
  | some x => rw [Multiset.filterMap_cons_some _ _ _ hsent]; simp

theorem owed_closeSocket (σ : Adapter β) (s : Slot) (ret : Int) :
    (σ.closeSocket s ret).1.owed = σ.owed := by
  unfold closeSocket
  split
  · split
    · rfl
    · exact owed_submit σ rfl
  · dsimp only
    split
    · rfl
    · exact owed_submit _ rfl

theorem owed_connect (σ : Adapter β) (id : Int) (tag : UInt64) (ret : Int) :
    (σ.libuvSocketConnect id tag ret).1.owed = σ.owed := by
  unfold libuvSocketConnect
  split
  · rfl
  · split
    · rfl
    · split <;> exact owed_submit σ rfl

theorem owed_clean (list : List Int) (σ : Adapter β) :
    (σ.libuvSocketClean list).owed = σ.owed := by
  unfold libuvSocketClean
  induction list generalizing σ with
  | nil => rfl
  | cons id list ih =>
    rw [List.foldl_cons, ih]
    unfold cleanOne
    split
    · rfl
    · split <;> rfl

theorem owed_send (σ : Adapter β) (id : Int) (tag : UInt64) (len : UInt32) (ret : Int)
    (o : Answer β) (τ : Adapter β) : (σ.libuvSocketSend id tag len ret).1.owed =
      σ.owed + accepted ⟨σ, .send id tag len ret, o, τ⟩ := by
  cases hcheck : σ.checkSocketId id tag with
  | none => simp [libuvSocketSend, accepted, hcheck]
  | some s =>
    simp only [libuvSocketSend, accepted, hcheck]
    by_cases hlen : len = 0
    · simp [hlen]
    by_cases hstate : (σ.sockets s).state = .connected
    · by_cases hret : ret = 0
      · simp only [hlen, hstate, hret, ne_eq, not_true_eq_false, not_false_eq_true, if_false,
          and_self, if_true]
        split
        · exact owed_submit_sent (c := .onSent s len) σ rfl
        · exact owed_submit_sent (c := .onSentUdp s len) σ rfl
      · simp [hlen, hstate, hret]
    · simp [hlen, hstate]

end Adapter

/-- **One step** settles the sends it answers and takes on those it accepts. -/
theorem step_owed {σ σ' : Adapter β} {op : Op β} {o : Answer β} (h : step σ op = some (σ', o)) :
    answered ⟨σ, op, o, σ'⟩ + σ'.owed = σ.owed + accepted ⟨σ, op, o, σ'⟩ := by
  cases op with
  | create isTcp param isIpv6 =>
    cases h
    simp only [answered, accepted, zero_add, add_zero]
    apply owed_of_pending
    unfold libuvCreateSocket
    dsimp only
    split <;> rfl
  | connect id tag ret =>
    cases h
    simp [answered, accepted, owed_connect]
  | disconnect id tag ret =>
    cases h
    simp only [answered, accepted, zero_add, add_zero, libuvSocketDisconnect]
    split
    · rfl
    · split
      · rfl
      · exact owed_closeSocket ..
  | close id tag ret =>
    cases h
    simp only [answered, accepted, zero_add, add_zero, libuvSocketClose]
    split
    · rfl
    · split
      · rfl
      · exact owed_closeSocket ..
  | forceClose id ret =>
    cases h
    simp only [answered, accepted, zero_add, add_zero, libuvSocketForceClose]
    split
    · rfl
    · split
      · rfl
      · exact owed_closeSocket ..
  | receive id tag buf len =>
    simp only [step, Option.map_eq_some_iff, Prod.mk.injEq] at h
    obtain ⟨⟨τ, r⟩, hr, rfl, -⟩ := h
    simp only [answered, accepted, zero_add, add_zero]
    apply owed_of_pending
    obtain ⟨rfl, -⟩ | ⟨s, n, -, -, -, -, rfl⟩ | ⟨s, d, ds, n, -, -, -, -, rfl⟩ :=
      libuvSocketReceive_cases hr <;> rfl
  | send id tag len ret =>
    cases h
    simp only [answered, zero_add]
    exact owed_send ..
  | check id tag =>
    cases h
    simp [answered, accepted]
  | clean list =>
    cases h
    simp [answered, accepted, owed_clean]
  | onConnect s status readRet posted =>
    simp only [step] at h
    obtain ⟨hc, rfl, -⟩ := fire_eq_some h
    simpa [answered, accepted, Callback.sent?] using owed_fire hc fun τ => onConnect_pending τ s posted status readRet
  | udpConnectAsync s readRet posted =>
    simp only [step] at h
    obtain ⟨hc, rfl, -⟩ := fire_eq_some h
    simpa [answered, accepted, Callback.sent?] using owed_fire hc fun τ => onConnect_pending τ s posted 0 readRet
  | onShutdown s posted =>
    simp only [step] at h
    obtain ⟨hc, rfl, -⟩ := fire_eq_some h
    simpa [answered, accepted, Callback.sent?] using owed_fire hc fun τ => onShutdown_pending τ s posted
  | udpAsyncClose s posted =>
    simp only [step] at h
    obtain ⟨hc, rfl, -⟩ := fire_eq_some h
    simpa [answered, accepted, Callback.sent?] using owed_fire hc fun τ => onClose_pending τ s posted
  | onSent s len status posted =>
    simp only [step] at h
    obtain ⟨hc, rfl, -⟩ := fire_eq_some h
    simpa [answered, accepted, Callback.sent?] using owed_fire hc fun τ => onSent_pending τ s posted len status
  | onSentUdp s len status posted =>
    simp only [step] at h
    obtain ⟨hc, rfl, -⟩ := fire_eq_some h
    simpa [answered, accepted, Callback.sent?] using owed_fire hc fun τ => onSent_pending τ s posted len status
  | onRecv s r room posted =>
    obtain ⟨-, rfl, -⟩ := step_onRecv_eq_some h
    simp only [answered, accepted, zero_add, add_zero]
    apply owed_of_pending
    rw [onRecv_pending, stopReading_pending]
  | onRecvUdp s d room posted =>
    obtain ⟨-, rfl, -⟩ := step_onRecvUdp_eq_some h
    simp only [answered, accepted, zero_add, add_zero]
    exact owed_of_pending (onRecvUdp_pending ..)

theorem txOk_eventFor (σ : Adapter β) (s : Slot) (posted : Bool) (id : EventId) (n : Nat) :
    (σ.eventFor s posted id n).filterMap NwEvent.txOk? =
      if id = .socketTxOk ∧ posted = true then [(s, n)] else [] := by
  cases posted with
  | false => simp [eventFor]
  | true => by_cases hid : id = .socketTxOk <;> simp [eventFor, NwEvent.txOk?, hid]

/-- The TX_OK event of a step is the success it reports. -/
theorem txOk_opEvents (e : Trans β) :
    (opEvents e.src e.act).filterMap NwEvent.txOk? = reportedOk e := by
  obtain ⟨σ, op, o, σ'⟩ := e
  cases op with
  | onConnect s status readRet posted =>
    by_cases hst : status = 0 <;> simp [opEvents, reportedOk, txOk_eventFor, hst]
  | onShutdown s posted =>
    simp only [opEvents, reportedOk]
    split <;> simp [txOk_eventFor]
  | udpAsyncClose s posted =>
    simp only [opEvents, reportedOk]
    split <;> simp [txOk_eventFor]
  | onSent s len status posted =>
    by_cases hst : status = 0 <;> simp [opEvents, reportedOk, txOk_eventFor, hst]
  | onSentUdp s len status posted =>
    by_cases hst : status = 0 <;> simp [opEvents, reportedOk, txOk_eventFor, hst]
  | onRecv s r room posted =>
    simp only [opEvents, reportedOk]
    split
    · split <;> simp [txOk_eventFor]
    · split <;> simp [txOk_eventFor]
    · rfl
    · split <;> simp [txOk_eventFor]
  | onRecvUdp s d room posted =>
    cases d with
    | none => rfl
    | some d =>
      simp only [opEvents, reportedOk]
      split <;> simp [txOk_eventFor]
  | udpConnectAsync s readRet posted => simp [opEvents, reportedOk, txOk_eventFor]
  | _ => rfl

/-- The caller of a send of less than 2 GiB learns from the sign of the result whether
libuv has taken it on. -/
theorem accepted_ne_zero_iff {σ σ' : Adapter β} {id : Int} {tag : UInt64} {len : UInt32}
    {ret r : Int} (h : step σ (.send id tag len ret) = some (σ', .code r))
    (hlen : len.toNat < 2 ^ 31) :
    accepted ⟨σ, .send id tag len ret, .code r, σ'⟩ ≠ 0 ↔ 0 < r := by
  simp only [step, Option.some.injEq, Prod.mk.injEq, Answer.code.injEq] at h
  obtain ⟨-, rfl⟩ := h
  have hret : toCInt len.toNat = len.toNat := by
    unfold toCInt
    rw [Int.bmod_eq_of_le] <;> omega
  cases hcheck : σ.checkSocketId id tag with
  | none => simp [accepted, libuvSocketSend, hcheck]
  | some s =>
    simp only [accepted, libuvSocketSend, hcheck]
    by_cases h0 : len = 0
    · simp [h0]
    have hpos : 0 < len.toNat := by
      rw [Nat.pos_iff_ne_zero]
      exact fun hzero => h0 (UInt32.toNat_inj.1 hzero)
    by_cases hstate : (σ.sockets s).state = .connected
    · by_cases hr : ret = 0
      · cases (σ.sockets s).isTcp <;> simp [h0, hstate, hr, hret, hpos]
      · simp [h0, hstate, hr]
    · simp [h0, hstate]

/-! ## The books of a run -/

/-- **Every accepted send is answered once.**  In every run, whatever the order of calls
and callbacks, the sends that libuv has taken on are those that a callback has answered
and those that are still open, each as often as the other; the TX_OK events are, in this
order, the answers that report success and could be posted; and a send of less than
2 GiB is taken on if and only if its caller is given a positive number. -/
theorem sends_answered_once {tr : List (Trans β)} {σ : Adapter β} (h : Run (machine β) tr σ) :
    (tr.map accepted).sum = (tr.map answered).sum + σ.owed ∧
      σ.events.filterMap NwEvent.txOk? = tr.flatMap reportedOk ∧
      ∀ e ∈ tr, ∀ id tag len ret r, e.act = .send id tag len ret → e.out = .code r →
        len.toNat < 2 ^ 31 → (accepted e ≠ 0 ↔ 0 < r) := by
  refine ⟨?_, ?_, ?_⟩
  · exact (h.ledger rfl fun σ op σ' o hs => step_owed hs).symm
  · have hlog : σ.events = [] ++ tr.flatMap fun e => opEvents e.src e.act :=
      h.toPath.log fun σ op σ' o hs => step_events hs
    rw [hlog, List.nil_append, List.filterMap_flatMap]
    simp only [txOk_opEvents]
  · rintro ⟨σ, op, o, σ'⟩ he id tag len ret r rfl rfl hlen
    exact accepted_ne_zero_iff (h.step_of_mem he) hlen

/-- Two sends of slot 0, answered in the other order, one of them with an error. -/
def sentOps : List (Op UInt8) :=
  [.create true 0 false, .connect 0 0xFAFB 0, .onConnect 0 0 0 true, .send 0 0xFAFB 5 0,
    .send 0 0xFAFB 7 0, .onSent 0 7 0 true, .send 0 0xFAFB 5 0, .onSent 0 5 (-104) true]

theorem sends_answered_once_reordered :
    ((machine UInt8).stateOf sentOps).owed = {(0, 5)} ∧
      ((machine UInt8).stateOf sentOps).events.filterMap NwEvent.txOk? = [(0, 7)] ∧
      (((machine UInt8).traceOf sentOps).map accepted).sum =
        (((machine UInt8).traceOf sentOps).map answered).sum +
          ((machine UInt8).stateOf sentOps).owed := by
  have hexec : ((machine UInt8).exec (machine UInt8).init sentOps).isSome = true := by decide
  refine ⟨by decide, ?_, (sends_answered_once (Machine.run_exec hexec)).1⟩
  rw [(sends_answered_once (Machine.run_exec hexec)).2.1]
  decide

end Libuv
end LuatosPc
