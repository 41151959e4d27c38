import LuatosPc.Base.Machine
import LuatosPc.Network.Basic

/-!
# Runs of the libuv adapter

The adapter as a machine: its owner calls the operations, and libuv runs the
callbacks it owes in any order and with any status, all interleaved.

* `Op` — one call or one callback, with everything libuv and the heap decide
  about it; `Answer` — what a call returns.
* `step`, `machine` — a callback can run only while libuv owes it, and a read
  callback only while its handle is reading.
* `Requests` — what the calls that ask libuv for something can do.
* `opEvents` — the events each action sends, and `step_events`: there are no
  others.
* `step_keeps` — the counters, the parameters of a socket and the life of its
  handles are written by create only.
-/

namespace LuatosPc
namespace Libuv

open Adapter

/-- One action on the adapter.  The arguments `ret`, `status`, `readRet`, `room`
and `posted` are decided by libuv and the heap. -/
inductive Op (β : Type)
  | create (isTcp : Bool) (param : Nat) (isIpv6 : Bool)
  | connect (socketId : Int) (tag : UInt64) (ret : Int)
  | disconnect (socketId : Int) (tag : UInt64) (ret : Int)
  | close (socketId : Int) (tag : UInt64) (ret : Int)
  | forceClose (socketId : Int) (ret : Int)
  | receive (socketId : Int) (tag : UInt64) (buf : Bool) (len : UInt32)
  | send (socketId : Int) (tag : UInt64) (len : UInt32) (ret : Int)
  | check (socketId : Int) (tag : UInt64)
  | clean (list : List Int)
  | onConnect (s : Slot) (status readRet : Int) (posted : Bool)
  | udpConnectAsync (s : Slot) (readRet : Int) (posted : Bool)
  | onShutdown (s : Slot) (posted : Bool)
  | udpAsyncClose (s : Slot) (posted : Bool)
  | onSent (s : Slot) (len : UInt32) (status : Int) (posted : Bool)
  | onSentUdp (s : Slot) (len : UInt32) (status : Int) (posted : Bool)
  | onRecv (s : Slot) (r : ReadResult β) (room posted : Bool)
  | onRecvUdp (s : Slot) (d : Option (UdpData β)) (room posted : Bool)

/-- What an action returns to its caller. -/
inductive Answer (β : Type)
  /-- The slot or -1, and the value stored in `*tag`. -/
  | created (ret : Int) (tag : Option UInt64)
  | code (ret : Int)
  | received (r : Received β)
  /-- `libuv_socket_clean` and the callbacks return nothing. -/
  | nothing
  deriving DecidableEq

variable {β : Type}

/-- libuv runs a callback it owes. -/
def fire (σ : Adapter β) (c : Callback) (f : Adapter β → Adapter β) :
    Option (Adapter β × Answer β) :=
  if c ∈ σ.pending then some (f { σ with pending := σ.pending.erase c }, .nothing) else none

/-- At the end of a stream libuv stops reading from it. -/
def stopReading (σ : Adapter β) (s : Slot) : ReadResult β → Adapter β
  | .eof => σ.modify s fun c => { c with tcp := { c.tcp with reading := false } }
  | _ => σ

/-- One action. -/
def step (σ : Adapter β) : Op β → Option (Adapter β × Answer β)
  | .create isTcp param isIpv6 =>
    let r := σ.libuvCreateSocket isTcp param isIpv6
    some (r.1, .created r.2.1 r.2.2)
  | .connect id tag ret =>
    let r := σ.libuvSocketConnect id tag ret
    some (r.1, .code r.2)
  | .disconnect id tag ret =>
    let r := σ.libuvSocketDisconnect id tag ret
    some (r.1, .code r.2)
  | .close id tag ret =>
    let r := σ.libuvSocketClose id tag ret
    some (r.1, .code r.2)
  | .forceClose id ret =>
    let r := σ.libuvSocketForceClose id ret
    some (r.1, .code r.2)
  | .receive id tag buf len =>
    (σ.libuvSocketReceive id tag buf len).map fun r => (r.1, .received r.2)
  | .send id tag len ret =>
    let r := σ.libuvSocketSend id tag len ret
    some (r.1, .code r.2)
  | .check id tag => some (σ, .code (σ.libuvSocketCheck id tag))
  | .clean list => some (σ.libuvSocketClean list, .nothing)
  | .onConnect s status readRet posted =>
    fire σ (.onConnect s) fun σ => σ.onConnect s status readRet posted
  | .udpConnectAsync s readRet posted =>
    fire σ (.udpConnectAsync s) fun σ => σ.onConnect s 0 readRet posted
  | .onShutdown s posted => fire σ (.onShutdown s) fun σ => σ.onShutdown s posted
  | .udpAsyncClose s posted => fire σ (.udpAsyncClose s) fun σ => σ.onClose s posted
  | .onSent s len status posted => fire σ (.onSent s len) fun σ => σ.onSent s len status posted
  | .onSentUdp s len status posted =>
    fire σ (.onSentUdp s len) fun σ => σ.onSent s len status posted
  | .onRecv s r room posted =>
    if (σ.sockets s).tcp.reading then some ((stopReading σ s r).onRecv s r room posted, .nothing)
    else none
  | .onRecvUdp s d room posted =>
    if (σ.sockets s).udp.reading then some (σ.onRecvUdp s d room posted, .nothing) else none

/-- The adapter under every sequence of calls and callbacks. -/
def machine (β : Type) : Machine (Adapter β) (Op β) (Answer β) := ⟨.start, step⟩

/-- A transition of the adapter. -/
abbrev Trans (β : Type) := Transition (Adapter β) (Op β) (Answer β)

/-! ## Reading the table after a write -/

namespace Adapter

variable (σ : Adapter β) (s s' : Slot)

theorem modify_sockets (f : UvConn β → UvConn β) :
    (σ.modify s f).sockets s' = if s' = s then f (σ.sockets s) else σ.sockets s' := by
  simp [modify, Function.update_apply]

@[simp] theorem modify_pending (f : UvConn β → UvConn β) : (σ.modify s f).pending = σ.pending := rfl

@[simp] theorem modify_events (f : UvConn β → UvConn β) : (σ.modify s f).events = σ.events := rfl

@[simp] theorem modify_counter (f : UvConn β → UvConn β) :
    (σ.modify s f).socketTagCounter = σ.socketTagCounter := rfl

theorem setSocketState_sockets (st : SocketState) : (σ.setSocketState s st).sockets s' =
    if s' = s then { σ.sockets s with state := st } else σ.sockets s' :=
  modify_sockets ..

theorem clearTag_sockets : (σ.clearTag s).sockets s' =
    if s' = s then { σ.sockets s with tag := 0 } else σ.sockets s' :=
  modify_sockets ..

@[simp] theorem setSocketState_pending (st : SocketState) :
    (σ.setSocketState s st).pending = σ.pending := rfl

@[simp] theorem setSocketState_events (st : SocketState) :
    (σ.setSocketState s st).events = σ.events := rfl

@[simp] theorem setSocketState_counter (st : SocketState) :
    (σ.setSocketState s st).socketTagCounter = σ.socketTagCounter := rfl

@[simp] theorem clearTag_pending : (σ.clearTag s).pending = σ.pending := rfl

@[simp] theorem clearTag_events : (σ.clearTag s).events = σ.events := rfl

@[simp] theorem clearTag_counter : (σ.clearTag s).socketTagCounter = σ.socketTagCounter := rfl

@[simp] theorem submit_sockets (c : Callback) : (σ.submit c).sockets = σ.sockets := rfl

@[simp] theorem submit_pending (c : Callback) : (σ.submit c).pending = σ.pending ++ [c] := rfl

@[simp] theorem submit_events (c : Callback) : (σ.submit c).events = σ.events := rfl

@[simp] theorem submit_counter (c : Callback) :
    (σ.submit c).socketTagCounter = σ.socketTagCounter := rfl

variable (posted : Bool) (id : EventId) (n : Nat)

@[simp] theorem cbToNwTask_sockets : (σ.cbToNwTask posted id s n).sockets = σ.sockets := by
  cases posted <;> rfl

@[simp] theorem cbToNwTask_pending : (σ.cbToNwTask posted id s n).pending = σ.pending := by
  cases posted <;> rfl

@[simp] theorem cbToNwTask_counter :
    (σ.cbToNwTask posted id s n).socketTagCounter = σ.socketTagCounter := by
  cases posted <;> rfl

/-- The events one `cb_to_nw_task` sends. -/
def eventFor : List NwEvent :=
  if posted then [⟨id, s, n, (σ.sockets s).param, (σ.sockets s).tag⟩] else []

theorem mem_eventFor {σ : Adapter β} {s : Slot} {posted : Bool} {id : EventId} {n : Nat}
    {ev : NwEvent} : ev ∈ σ.eventFor s posted id n ↔
      posted = true ∧ ev = ⟨id, s, n, (σ.sockets s).param, (σ.sockets s).tag⟩ := by
  unfold eventFor
  split
  · rename_i h
    simp [h]
  · rename_i h
    simp [h]

theorem cbToNwTask_events :
    (σ.cbToNwTask posted id s n).events = σ.events ++ σ.eventFor s posted id n := by
  cases posted <;> simp [cbToNwTask, eventFor]

end Adapter

/-! ## The events of a step -/

/-- The events an action sends in a state. -/
def opEvents (σ : Adapter β) : Op β → List NwEvent
  | .onConnect s status _ posted =>
    σ.eventFor s posted (if status = 0 then .socketConnectOk else .socketError) 0
  | .udpConnectAsync s _ posted => σ.eventFor s posted .socketConnectOk 0
  | .onShutdown s posted | .udpAsyncClose s posted =>
    if (σ.sockets s).tag = 0 ∨ (σ.sockets s).state = .closed then []
    else σ.eventFor s posted .socketCloseOk 0
  | .onSent s len status posted | .onSentUdp s len status posted =>
    if status = 0 then σ.eventFor s posted .socketTxOk len.toNat
    else σ.eventFor s posted .socketError 0
  | .onRecv s r room posted =>
    match r with
    | .eof =>
      if (σ.sockets s).state = .closed ∨ (σ.sockets s).state = .closing then []
      else σ.eventFor s posted .socketRemoteClose 0
    | .error =>
      if (σ.sockets s).state = .closed then [] else σ.eventFor s posted .socketError 0
    | .data [] => []
    | .data (b :: bs) =>
      if (σ.sockets s).recvBuff.isNone ∨ room then
        σ.eventFor s posted .socketRxNew (b :: bs).length
      else σ.eventFor s posted .socketError 0
  | .onRecvUdp s (some d) room posted =>
    if d.data.length = 0 ∨ room = false then []
    else σ.eventFor s posted .socketRxNew d.data.length
  | _ => []

/-- What is left of the receive buffer once `n` bytes are taken from it. -/
def UvConn.consume (c : UvConn β) (n : Nat) : UvConn β :=
  { c with
    recvBuff := if c.recvSize - n = 0 then none
      else some (((c.recvBuff.getD []).drop n).take (c.recvSize - n))
    recvSize := c.recvSize - n }

namespace Adapter

theorem closeSocket_events (σ : Adapter β) (s : Slot) (ret : Int) :
    (σ.closeSocket s ret).1.events = σ.events := by
  unfold closeSocket
  split <;> split <;> rfl

/-- What the calls that ask libuv for something can do to the adapter: nothing, or
hand one request to libuv; a forced close clears the tag besides. -/
inductive Requests (σ : Adapter β) : Adapter β → Prop
  | refused : Requests σ σ
  | connect (c : Callback) (s : Slot) : Requests σ ((σ.submit c).setSocketState s .connecting)
  | close (s : Slot) (ret : Int) : Requests σ (σ.closeSocket s ret).1
  | forceClose (s : Slot) (ret : Int) : Requests σ ((σ.closeSocket s ret).1.clearTag s)
  | send (c : Callback) : Requests σ (σ.submit c)

theorem requests_connect (σ : Adapter β) (id : Int) (tag : UInt64) (ret : Int) :
    σ.Requests (σ.libuvSocketConnect id tag ret).1 := by
  unfold libuvSocketConnect
  split
  · exact .refused
  · split
    · exact .refused
    · split <;> exact .connect ..

theorem requests_disconnect (σ : Adapter β) (id : Int) (tag : UInt64) (ret : Int) :
    σ.Requests (σ.libuvSocketDisconnect id tag ret).1 := by
  unfold libuvSocketDisconnect
  split
  · exact .refused
  · split
    · exact .refused
    · exact .close ..

theorem requests_close (σ : Adapter β) (id : Int) (tag : UInt64) (ret : Int) :
    σ.Requests (σ.libuvSocketClose id tag ret).1 := by
  unfold libuvSocketClose
  split
  · exact .refused
  · split
    · exact .refused
    · exact .close ..

theorem requests_forceClose (σ : Adapter β) (id ret : Int) :
    σ.Requests (σ.libuvSocketForceClose id ret).1 := by
  unfold libuvSocketForceClose
  split
  · exact .refused
  · split
    · exact .refused
    · exact .forceClose ..

theorem requests_send (σ : Adapter β) (id : Int) (tag : UInt64) (len : UInt32) (ret : Int) :
    σ.Requests (σ.libuvSocketSend id tag len ret).1 := by
  unfold libuvSocketSend
  split
  · exact .refused
  · split
    · exact .refused
    · split
      · exact .refused
      · split
        · exact .refused
        · split <;> exact .send _

theorem Requests.events {σ σ' : Adapter β} (h : σ.Requests σ') : σ'.events = σ.events := by
  cases h with
  | refused => rfl
  | connect c s => rfl
  | close s ret => exact closeSocket_events σ s ret
  | forceClose s ret => exact closeSocket_events σ s ret
  | send c => rfl

theorem cleanOne_events (σ : Adapter β) (id : Int) : (σ.cleanOne id).events = σ.events := by
  unfold cleanOne
  split
  · rfl
  · split <;> rfl

theorem clean_events (list : List Int) (σ : Adapter β) :
    (σ.libuvSocketClean list).events = σ.events := by
  unfold libuvSocketClean
  induction list generalizing σ with
  | nil => rfl
  | cons id list ih => rw [List.foldl_cons, ih, cleanOne_events]

theorem onConnect_events (σ : Adapter β) (s : Slot) (status readRet : Int) (posted : Bool) :
    (σ.onConnect s status readRet posted).events = σ.events ++
      σ.eventFor s posted (if status = 0 then .socketConnectOk else .socketError) 0 := by
  unfold onConnect
  by_cases hst : status = 0
  · rw [if_neg (by simpa using hst), if_pos hst]
    have h : ∀ τ : Adapter β, (if readRet ≠ 0 then τ
        else if (τ.sockets s).isTcp then
          τ.modify s fun c => { c with tcp := { c.tcp with reading := true } }
        else τ.modify s fun c => { c with udp := { c.udp with reading := true } }).events
          = τ.events := by
      intro τ
      split
      · rfl
      · split <;> rfl
    rw [h, cbToNwTask_events]
    simp [eventFor, setSocketState_sockets]
  · rw [if_pos hst, if_neg hst, cbToNwTask_events]
    simp [eventFor, setSocketState_sockets]

theorem closeOk_events (σ : Adapter β) (s : Slot) (posted : Bool) :
    (((σ.setSocketState s .closed).cbToNwTask posted .socketCloseOk s 0).clearTag s).events =
      σ.events ++ σ.eventFor s posted .socketCloseOk 0 := by
  rw [clearTag_events, cbToNwTask_events]
  simp [eventFor, setSocketState_sockets]

/-- **What a receive can do**: nothing to the table, or take bytes off the front
of a TCP slot's buffer, or take the first datagram of a UDP slot. -/
theorem libuvSocketReceive_cases {σ σ' : Adapter β} {id : Int} {tag : UInt64} {buf : Bool}
    {len : UInt32} {r : Received β} (h : σ.libuvSocketReceive id tag buf len = some (σ', r)) :
    (σ' = σ ∧ r.bytes = [] ∧ r.sender = none) ∨
    (∃ s n, σ.checkSocketId id tag = some s ∧ (σ.sockets s).isTcp = true ∧
      n ≤ (σ.sockets s).recvSize ∧ r = ⟨toCInt n, ((σ.sockets s).recvBuff.getD []).take n, none⟩ ∧
      σ' = σ.modify s fun c => c.consume n) ∨
    (∃ s d ds n, σ.checkSocketId id tag = some s ∧ (σ.sockets s).isTcp = false ∧
      (σ.sockets s).udpData = d :: ds ∧ r = ⟨toCInt n, d.data.take n, some d.addr⟩ ∧
      σ' = σ.modify s fun c => { c with udpData := ds }) := by
  unfold libuvSocketReceive at h
  cases hs : σ.checkSocketId id tag with
  | none =>
    rw [hs] at h
    cases h
    exact Or.inl ⟨rfl, rfl, rfl⟩
  | some s =>
    rw [hs] at h
    cases htcp : (σ.sockets s).isTcp with
    | true =>
      simp only [htcp, if_true, Option.some.injEq, receiveTcp] at h
      split at h
      · cases h; exact Or.inl ⟨rfl, rfl, rfl⟩
      · split at h
        · cases h; exact Or.inl ⟨rfl, rfl, rfl⟩
        · -- the number of bytes handed out
          set n := if len.toNat > (σ.sockets s).recvSize then (σ.sockets s).recvSize
            else len.toNat with hn
          have hle : n ≤ (σ.sockets s).recvSize := by
            rw [hn]; split <;> omega
          refine Or.inr (Or.inl ⟨s, n, rfl, htcp, hle, ?_, ?_⟩)
          · split at h <;> (cases h; rfl)
          · split at h
            · rename_i h0
              cases h
              simp [modify, UvConn.consume, h0]
            · rename_i h0
              cases h
              simp [modify, UvConn.consume, h0]
    | false =>
      simp only [htcp, Bool.false_eq_true, if_false, receiveUdp] at h
      split at h
      · split at h <;> (cases h; exact Or.inl ⟨rfl, rfl, rfl⟩)
      · split at h
        · cases h; exact Or.inl ⟨rfl, rfl, rfl⟩
        · split at h
          · exact absurd h (by simp)
          · rename_i d ds hd
            cases h
            exact Or.inr (Or.inr ⟨s, d, ds, _, rfl, htcp, hd, rfl, rfl⟩)

theorem receive_events {σ σ' : Adapter β} {id : Int} {tag : UInt64} {buf : Bool} {len : UInt32}
    {r : Received β} (h : σ.libuvSocketReceive id tag buf len = some (σ', r)) :
    σ'.events = σ.events := by
  obtain ⟨rfl, -⟩ | ⟨s, n, -, -, -, -, rfl⟩ | ⟨s, d, ds, n, -, -, -, -, rfl⟩ :=
    libuvSocketReceive_cases h <;> rfl

theorem onRecv_events (σ : Adapter β) (s : Slot) (r : ReadResult β) (room posted : Bool) :
    ((stopReading σ s r).onRecv s r room posted).events =
      σ.events ++ opEvents σ (.onRecv s r room posted) := by
  cases r with
  | eof =>
    by_cases hcl : (σ.sockets s).state = .closed
    · simp [stopReading, onRecv, opEvents, modify_sockets, hcl]
    · by_cases hcg : (σ.sockets s).state = .closing
      · simp [stopReading, onRecv, opEvents, modify_sockets, hcg]
      · simp [stopReading, onRecv, opEvents, modify_sockets, hcl, hcg, cbToNwTask_events, eventFor,
          setSocketState_sockets]
  | error =>
    by_cases hcl : (σ.sockets s).state = .closed
    · simp [stopReading, onRecv, opEvents, hcl]
    · simp [stopReading, onRecv, opEvents, hcl, cbToNwTask_events, eventFor,
        setSocketState_sockets]
  | data bytes =>
    cases bytes with
    | nil => simp [stopReading, onRecv, opEvents]
    | cons b bs =>
      cases hb : (σ.sockets s).recvBuff with
      | none =>
        simp [stopReading, onRecv, opEvents, hb, cbToNwTask_events, eventFor, modify_sockets]
      | some old =>
        cases room <;>
          simp [stopReading, onRecv, opEvents, hb, cbToNwTask_events, eventFor, modify_sockets]

theorem onRecvUdp_events (σ : Adapter β) (s : Slot) (d : Option (UdpData β)) (room posted : Bool) :
    (σ.onRecvUdp s d room posted).events = σ.events ++ opEvents σ (.onRecvUdp s d room posted) := by
  cases d with
  | none => simp [onRecvUdp, opEvents]
  | some d =>
    by_cases hd : d.data = []
    · simp [onRecvUdp, opEvents, hd]
    · cases room <;>
        simp [onRecvUdp, opEvents, hd, cbToNwTask_events, eventFor, modify_sockets]

end Adapter

theorem fire_eq_some {σ σ' : Adapter β} {c : Callback} {f : Adapter β → Adapter β} {o : Answer β}
    (h : fire σ c f = some (σ', o)) :
    c ∈ σ.pending ∧ σ' = f { σ with pending := σ.pending.erase c } ∧ o = .nothing := by
  unfold fire at h
  split at h
  · rename_i hc
    cases h
    exact ⟨hc, rfl, rfl⟩
  · exact absurd h (by simp)

theorem step_onRecv_eq_some {σ σ' : Adapter β} {s : Slot} {r : ReadResult β} {room posted : Bool}
    {o : Answer β} (h : step σ (.onRecv s r room posted) = some (σ', o)) :
    (σ.sockets s).tcp.reading = true ∧ σ' = (stopReading σ s r).onRecv s r room posted ∧
      o = .nothing := by
  simp only [step, Option.ite_none_right_eq_some, Option.some.injEq, Prod.mk.injEq] at h
  exact ⟨h.1, h.2.1.symm, h.2.2.symm⟩

theorem step_onRecvUdp_eq_some {σ σ' : Adapter β} {s : Slot} {d : Option (UdpData β)}
    {room posted : Bool} {o : Answer β} (h : step σ (.onRecvUdp s d room posted) = some (σ', o)) :
    (σ.sockets s).udp.reading = true ∧ σ' = σ.onRecvUdp s d room posted ∧ o = .nothing := by
  simp only [step, Option.ite_none_right_eq_some, Option.some.injEq, Prod.mk.injEq] at h
  exact ⟨h.1, h.2.1.symm, h.2.2.symm⟩

/-- The events of a step are those of `opEvents`, appended to the ones sent
before. -/
theorem step_events {σ σ' : Adapter β} {op : Op β} {o : Answer β}
    (h : step σ op = some (σ', o)) : σ'.events = σ.events ++ opEvents σ op := by
  cases op with
  | create isTcp param isIpv6 =>
    cases h
    unfold libuvCreateSocket
    simp only [opEvents, List.append_nil]
    split <;> rfl
  | connect id tag ret =>
    cases h
    simpa [opEvents] using (requests_connect σ id tag ret).events
  | disconnect id tag ret =>
    cases h
    simpa [opEvents] using (requests_disconnect σ id tag ret).events
  | close id tag ret =>
    cases h
    simpa [opEvents] using (requests_close σ id tag ret).events
  | forceClose id ret =>
    cases h
    simpa [opEvents] using (requests_forceClose σ id ret).events
  | receive id tag buf len =>
    simp only [step, Option.map_eq_some_iff, Prod.mk.injEq] at h
    obtain ⟨⟨τ, r⟩, hr, rfl, -⟩ := h
    simpa [opEvents] using receive_events hr
  | send id tag len ret =>
    cases h
    simpa [opEvents] using (requests_send σ id tag len ret).events
  | check id tag => cases h; simp [opEvents]
  | clean list => cases h; simp [opEvents, clean_events]
  | onConnect s status readRet posted =>
    simp only [step] at h
    obtain ⟨-, rfl, -⟩ := fire_eq_some h
    exact onConnect_events ..
  | udpConnectAsync s readRet posted =>
    simp only [step] at h
    obtain ⟨-, rfl, -⟩ := fire_eq_some h
    exact onConnect_events ..
  | onShutdown s posted =>
    simp only [step] at h
    obtain ⟨-, rfl, -⟩ := fire_eq_some h
    simp only [Adapter.onShutdown, opEvents]
    split
    · simp
    · exact closeOk_events ..
  | udpAsyncClose s posted =>
    simp only [step] at h
    obtain ⟨-, rfl, -⟩ := fire_eq_some h
    simp only [onClose, opEvents]
    split
    · simp
    · exact closeOk_events ..
  | onSent s len status posted =>
    simp only [step] at h
    obtain ⟨-, rfl, -⟩ := fire_eq_some h
    simp only [Adapter.onSent, opEvents]
    split <;> exact cbToNwTask_events ..
  | onSentUdp s len status posted =>
    simp only [step] at h
    obtain ⟨-, rfl, -⟩ := fire_eq_some h
    simp only [Adapter.onSent, opEvents]
    split <;> exact cbToNwTask_events ..
  | onRecv s r room posted =>
    obtain ⟨-, rfl, -⟩ := step_onRecv_eq_some h
    exact onRecv_events ..
  | onRecvUdp s d room posted =>
    obtain ⟨-, rfl, -⟩ := step_onRecvUdp_eq_some h
    exact onRecvUdp_events ..

/-! ## What only create writes -/

/-- The part of a slot that only `libuv_create_socket` writes: where libuv stands
with the two handles, and what the socket was created with. -/
def UvConn.fixed (c : UvConn β) : HandleLife × HandleLife × Nat × Bool × Bool :=
  (c.tcp.life, c.udp.life, c.param, c.isTcp, c.isIpv6)

/-- Nothing that only `libuv_create_socket` writes has changed. -/
structure Adapter.Keeps (σ σ' : Adapter β) : Prop where
  counter : σ'.socketTagCounter = σ.socketTagCounter
  next : σ'.nextSocketIndex = σ.nextSocketIndex
  fixed : ∀ s, (σ'.sockets s).fixed = (σ.sockets s).fixed

namespace Adapter.Keeps

theorem refl (σ : Adapter β) : Keeps σ σ := ⟨rfl, rfl, fun _ => rfl⟩

theorem trans {σ₁ σ₂ σ₃ : Adapter β} (h₁ : Keeps σ₁ σ₂) (h₂ : Keeps σ₂ σ₃) : Keeps σ₁ σ₃ where
  counter := h₂.counter.trans h₁.counter
  next := h₂.next.trans h₁.next
  fixed := fun s => (h₂.fixed s).trans (h₁.fixed s)

theorem modify {σ τ : Adapter β} (h : Keeps σ τ) (s : Slot) {f : UvConn β → UvConn β}
    (hf : ∀ c, (f c).fixed = c.fixed) : Keeps σ (τ.modify s f) := by
  refine h.trans ⟨rfl, rfl, fun s' => ?_⟩
  rw [modify_sockets]
  split
  · rename_i hs
    rw [hs, hf]
  · rfl

theorem setSocketState {σ τ : Adapter β} (h : Keeps σ τ) (s : Slot) (st : SocketState) :
    Keeps σ (τ.setSocketState s st) := h.modify s fun _ => rfl

theorem clearTag {σ τ : Adapter β} (h : Keeps σ τ) (s : Slot) : Keeps σ (τ.clearTag s) :=
  h.modify s fun _ => rfl

theorem submit {σ τ : Adapter β} (h : Keeps σ τ) (c : Callback) : Keeps σ (τ.submit c) :=
  h.trans ⟨rfl, rfl, fun _ => rfl⟩

theorem cbToNwTask {σ τ : Adapter β} (h : Keeps σ τ) (posted : Bool) (id : EventId) (s : Slot)
    (n : Nat) : Keeps σ (τ.cbToNwTask posted id s n) := by
  cases posted with
  | true => exact h.trans ⟨rfl, rfl, fun _ => rfl⟩
  | false => exact h

theorem closeSocket (σ : Adapter β) (s : Slot) (ret : Int) : Keeps σ (σ.closeSocket s ret).1 := by
  have hstop := (refl σ).modify s
    (f := fun c => { c with udp := { c.udp with reading := false } }) fun _ => rfl
  unfold Adapter.closeSocket
  split
  · split
    · exact (refl σ).setSocketState s _
    · exact (refl σ).submit _
  · dsimp only
    split
    · exact hstop.setSocketState s _
    · exact hstop.submit _

theorem requests {σ σ' : Adapter β} (h : σ.Requests σ') : Keeps σ σ' := by
  cases h with
  | refused => exact refl σ
  | connect c s => exact ((refl σ).submit c).setSocketState s _
  | close s ret => exact closeSocket σ s ret
  | forceClose s ret => exact (closeSocket σ s ret).clearTag s
  | send c => exact (refl σ).submit c

theorem clean (list : List Int) (σ : Adapter β) : Keeps σ (σ.libuvSocketClean list) := by
  have hone : ∀ (σ : Adapter β) id, Keeps σ (σ.cleanOne id) := by
    intro σ id
    unfold cleanOne
    split
    · exact refl σ
    · split
      · exact (refl σ).modify _ fun _ => rfl
      · exact refl σ
  unfold libuvSocketClean
  induction list generalizing σ with
  | nil => exact refl σ
  | cons id list ih => exact (hone σ id).trans (ih _)

theorem onConnect (σ : Adapter β) (s : Slot) (status readRet : Int) (posted : Bool) :
    Keeps σ (σ.onConnect s status readRet posted) := by
  unfold Adapter.onConnect
  dsimp only
  split
  · exact ((refl σ).setSocketState s _).cbToNwTask ..
  · split
    · exact ((refl σ).setSocketState s _).cbToNwTask ..
    · split
      · exact (((refl σ).setSocketState s _).cbToNwTask ..).modify s fun _ => rfl
      · exact (((refl σ).setSocketState s _).cbToNwTask ..).modify s fun _ => rfl

theorem onShutdown (σ : Adapter β) (s : Slot) (posted : Bool) :
    Keeps σ (σ.onShutdown s posted) := by
  unfold Adapter.onShutdown
  split
  · exact refl σ
  · exact (((refl σ).setSocketState s _).cbToNwTask ..).clearTag s

theorem onClose (σ : Adapter β) (s : Slot) (posted : Bool) : Keeps σ (σ.onClose s posted) := by
  unfold Adapter.onClose
  split
  · exact (refl σ).clearTag s
  · exact (((refl σ).setSocketState s _).cbToNwTask ..).clearTag s

theorem onSent (σ : Adapter β) (s : Slot) (len : UInt32) (status : Int) (posted : Bool) :
    Keeps σ (σ.onSent s len status posted) := by
  unfold Adapter.onSent
  split <;> exact (refl σ).cbToNwTask ..

theorem onRecv (σ : Adapter β) (s : Slot) (r : ReadResult β) (room posted : Bool) :
    Keeps σ (σ.onRecv s r room posted) := by
  unfold Adapter.onRecv
  split
  · split
    · exact refl σ
    · split
      · exact refl σ
      · exact ((refl σ).setSocketState s _).cbToNwTask ..
  · split
    · exact refl σ
    · exact ((refl σ).setSocketState s _).cbToNwTask ..
  · exact refl σ
  · split
    · refine ((refl σ).modify s ?_).cbToNwTask ..
      exact fun _ => rfl
    · split
      · refine ((refl σ).modify s ?_).cbToNwTask ..
        exact fun _ => rfl
      · exact (refl σ).cbToNwTask ..

theorem onRecvUdp (σ : Adapter β) (s : Slot) (d : Option (UdpData β)) (room posted : Bool) :
    Keeps σ (σ.onRecvUdp s d room posted) := by
  unfold Adapter.onRecvUdp
  split
  · exact refl σ
  · split
    · exact refl σ
    · split
      · refine ((refl σ).modify s ?_).cbToNwTask ..
        exact fun _ => rfl
      · exact refl σ

end Adapter.Keeps

/-- Is the action a call of `libuv_create_socket`? -/
def Op.isCreate : Op β → Bool
  | .create .. => true
  | _ => false

/-- **Every action but create keeps what create has written.** -/
theorem step_keeps {σ σ' : Adapter β} {op : Op β} {o : Answer β} (h : step σ op = some (σ', o))
    (hop : op.isCreate = false) : Keeps σ σ' := by
  -- running a callback takes it off the list first
  have hfire : ∀ c, Keeps σ { σ with pending := σ.pending.erase c } := fun _ =>
    ⟨rfl, rfl, fun _ => rfl⟩
  cases op with
  | create isTcp param isIpv6 => exact absurd hop (by simp [Op.isCreate])
  | connect id tag ret => cases h; exact .requests (requests_connect ..)
  | disconnect id tag ret => cases h; exact .requests (requests_disconnect ..)
  | close id tag ret => cases h; exact .requests (requests_close ..)
  | forceClose id ret => cases h; exact .requests (requests_forceClose ..)
  | receive id tag buf len =>
    simp only [step, Option.map_eq_some_iff, Prod.mk.injEq] at h
    obtain ⟨⟨τ, r⟩, hr, rfl, -⟩ := h
    dsimp only
    obtain ⟨rfl, -⟩ | ⟨s, n, -, -, -, -, rfl⟩ | ⟨s, d, ds, n, -, -, -, -, rfl⟩ :=
      libuvSocketReceive_cases hr
    · exact .refl _
    · refine (Keeps.refl σ).modify s ?_
      exact fun _ => rfl
    · refine (Keeps.refl σ).modify s ?_
      exact fun _ => rfl
  | send id tag len ret => cases h; exact .requests (requests_send ..)
  | check id tag => cases h; exact .refl σ
  | clean list => cases h; exact .clean list σ
  | onConnect s status readRet posted =>
    simp only [step] at h
    obtain ⟨-, rfl, -⟩ := fire_eq_some h
    exact (hfire _).trans (.onConnect ..)
  | udpConnectAsync s readRet posted =>
    simp only [step] at h
    obtain ⟨-, rfl, -⟩ := fire_eq_some h
    exact (hfire _).trans (.onConnect ..)
  | onShutdown s posted =>
    simp only [step] at h
    obtain ⟨-, rfl, -⟩ := fire_eq_some h
    exact (hfire _).trans (.onShutdown ..)
  | udpAsyncClose s posted =>
    simp only [step] at h
    obtain ⟨-, rfl, -⟩ := fire_eq_some h
    exact (hfire _).trans (.onClose ..)
  | onSent s len status posted =>
    simp only [step] at h
    obtain ⟨-, rfl, -⟩ := fire_eq_some h
    exact (hfire _).trans (.onSent ..)
  | onSentUdp s len status posted =>
    simp only [step] at h
    obtain ⟨-, rfl, -⟩ := fire_eq_some h
    exact (hfire _).trans (.onSent ..)
  | onRecv s r room posted =>
    obtain ⟨-, rfl, -⟩ := step_onRecv_eq_some h
    have hstop : Keeps σ (stopReading σ s r) := by
      cases r with
      | eof =>
        unfold stopReading
        refine (Keeps.refl σ).modify s ?_
        exact fun _ => rfl
      | error => exact .refl σ
      | data bytes => exact .refl σ
    exact hstop.trans (.onRecv ..)
  | onRecvUdp s d room posted =>
    obtain ⟨-, rfl, -⟩ := step_onRecvUdp_eq_some h
    exact .onRecvUdp ..

end Libuv
end LuatosPc
