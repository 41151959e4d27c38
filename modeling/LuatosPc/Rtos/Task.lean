import LuatosPc.Base.Machine
import LuatosPc.Rtos.Queue

/-!
# Task events and task messages

The model of `luat_rtos_task_pc.c`: one task handle, to which threads send events
and messages and from which threads receive them.  Both kinds of traffic go through
the one queue of the task, and nothing in an item tells which kind it is.

* `Event`, `Message`, `Sent` — what is sent, and its bytes.
* `luatRtosEventSend`, `luatRtosMessageSend` — the sending functions of the source;
  `eventRecvRound`, `messageRecvRound` — one round of the loops of
  `luat_rtos_event_recv` and `luat_rtos_message_recv`.
* `State`, `Act`, `step`, `machine` — the task under every interleaving.
* `sends`, `pops` — the items pushed in a run and how many have been popped, so
  that `(sends tr).drop (pops tr)` is what is left (`Holds`, `run_holds`).
* `Suits` — a receive may meet an item: it is of its own kind, or it is a message
  that an event receive for another id drops.
* `task_traffic_apart` — as long as every receive meets an item that suits it, the
  two kinds do not mix and no copy leaves a buffer.
-/

namespace LuatosPc.Rtos.Task

open LuatosPc.Bytes LuatosPc.Linked

/-! ## Payloads -/

/-- `luat_event_t`. -/
structure Event where
  id : UInt32
  param1 : UInt32
  param2 : UInt32
  param3 : UInt32
  deriving DecidableEq, Repr

/-- `luat_message_item_t`: an id and a pointer. -/
structure Message (w : PtrSize) where
  id : UInt32
  msg : BitVec (8 * w.bytes)
  deriving DecidableEq, Repr

variable {w : PtrSize}

/-- `sizeof(luat_event_t)`. -/
def sizeofEvent : Nat := 16

/-- `sizeof(luat_message_item_t)`: the id is padded to the size of a pointer. -/
def sizeofMessage (w : PtrSize) : Nat := 2 * w.bytes

/-- The bytes of an event. -/
def Event.bytes (e : Event) : List UInt8 :=
  leBytes 4 e.id.toNat ++ (leBytes 4 e.param1.toNat ++
    (leBytes 4 e.param2.toNat ++ leBytes 4 e.param3.toNat))

/-- The bytes of a message. -/
def Message.bytes (m : Message w) : List UInt8 :=
  leBytes 4 m.id.toNat ++ (List.replicate (w.bytes - 4) 0 ++ leBytes w.bytes m.msg.toNat)

/-- The number in `k` bytes from an offset on. -/
def field (k off : Nat) (bs : List UInt8) : Nat := leValue ((bs.drop off).take k)

/-- The event in a block of bytes. -/
def Event.ofBytes (bs : List UInt8) : Event :=
  ⟨.ofNat (field 4 0 bs), .ofNat (field 4 4 bs), .ofNat (field 4 8 bs), .ofNat (field 4 12 bs)⟩

/-- The message in a block of bytes. -/
def Message.ofBytes (w : PtrSize) (bs : List UInt8) : Message w :=
  ⟨.ofNat (field 4 0 bs), .ofNat _ (field w.bytes w.bytes bs)⟩

/-- What is sent to a task. -/
inductive Sent (w : PtrSize)
  | event (e : Event)
  | message (m : Message w)
  deriving DecidableEq, Repr

/-- The payload. -/
def Sent.bytes : Sent w → List UInt8
  | event e => e.bytes
  | message m => m.bytes

theorem field_eq {k x off : Nat} {a b : List UInt8} (ha : a.length = off) (hx : x < 256 ^ k) :
    field k off (a ++ (leBytes k x ++ b)) = x := by
  rw [field, List.drop_left' ha, List.take_left' (length_leBytes k x), leValue_leBytes hx]

theorem ofNat_field {v : UInt32} {off : Nat} {a b : List UInt8} (ha : a.length = off) :
    UInt32.ofNat (field 4 off (a ++ (leBytes 4 v.toNat ++ b))) = v := by
  rw [field_eq ha (UInt32.toNat_lt v), UInt32.ofNat_toNat]

theorem length_eventBytes (e : Event) : e.bytes.length = sizeofEvent := by
  simp [Event.bytes, sizeofEvent]

theorem length_messageBytes (m : Message w) : m.bytes.length = sizeofMessage w := by
  cases w <;> simp [Message.bytes, sizeofMessage, PtrSize.bytes]

theorem event_ofBytes_bytes (e : Event) : Event.ofBytes e.bytes = e := by
  have h0 : UInt32.ofNat (field 4 0 e.bytes) = e.id := ofNat_field (a := []) rfl
  have h1 : UInt32.ofNat (field 4 4 e.bytes) = e.param1 := ofNat_field (length_leBytes _ _)
  have h2 : UInt32.ofNat (field 4 8 e.bytes) = e.param2 := by
    rw [Event.bytes, ← List.append_assoc]
    exact ofNat_field (by simp)
  have h3 : UInt32.ofNat (field 4 12 e.bytes) = e.param3 := by
    rw [Event.bytes, ← List.append_assoc, ← List.append_assoc,
      ← List.append_nil (leBytes 4 e.param3.toNat)]
    exact ofNat_field (by simp)
  rw [Event.ofBytes, h0, h1, h2, h3]

theorem message_ofBytes_bytes (m : Message w) : Message.ofBytes w m.bytes = m := by
  have h0 : UInt32.ofNat (field 4 0 m.bytes) = m.id := ofNat_field (a := []) rfl
  have h1 : field w.bytes w.bytes m.bytes = m.msg.toNat := by
    rw [Message.bytes, ← List.append_assoc, ← List.append_nil (leBytes w.bytes m.msg.toNat)]
    refine field_eq ?_ ?_
    · cases w <;> simp [PtrSize.bytes]
    · have := m.msg.isLt
      rwa [Nat.pow_mul] at this
  rw [Message.ofBytes, h0, h1, BitVec.ofNat_toNat, BitVec.setWidth_eq]

/-- Both kinds of payload start with the id. -/
theorem event_ofBytes_id {m : Message w} {bs : List UInt8}
    (h : bs.take m.bytes.length = m.bytes) : (Event.ofBytes bs).id = m.id := by
  rw [← List.take_append_drop m.bytes.length bs, h, Message.bytes, List.append_assoc]
  exact ofNat_field (a := []) rfl

/-! ## The functions -/

/-- The address of the queue in the `utask_t`. -/
def queueAddr : Addr := 0

/-- A receive that is under way: its arguments, with the time that is left. -/
inductive Recv
  | event (wait timeout : UInt32)
  | message (timeout : UInt32)
  deriving DecidableEq, Repr

/-- The payload that a receive allocates for. -/
def Recv.size (w : PtrSize) : Recv → Nat
  | event _ _ => sizeofEvent
  | message _ => sizeofMessage w

/-- What a round of a receive comes to. -/
inductive Outcome (w : PtrSize)
  | event (e : Event)
  | message (m : Message w)
  /-- The receive returns 1. -/
  | timeout
  /-- It sleeps and goes on. -/
  | again (r : Recv)
  deriving DecidableEq, Repr

/-- `luat_rtos_event_send`, which does not look at what the heap returns. -/
def luatRtosEventSend (w : PtrSize) (h : Mem) (e : Event) (addr : Option Addr)
    (junk : Nat → UInt8) : Except Fault (Mem × Int) :=
  match addr with
  | none => .error .lost
  | some addr => sendItem w h queueAddr e.bytes addr junk

/-- `luat_rtos_message_send`. -/
def luatRtosMessageSend (h : Mem) (m : Message w) (addr : Option Addr)
    (junk : Nat → UInt8) : Except Fault (Mem × Int) :=
  match addr with
  | none => .ok (h, -1)
  | some addr => sendItem w h queueAddr m.bytes addr junk

/-- `luat_heap_free`, which takes `NULL`. -/
def freeItem (h : Mem) : Option Addr → Mem
  | none => h
  | some item => h.free item

/-- `(size_t)(-1)`. -/
def sizeMax (w : PtrSize) : Nat := 2 ^ (8 * w.bytes) - 1

/-- The end of a round that returns nothing: give up, or count down and sleep. -/
def expire (w : PtrSize) (h : Mem) (item : Option Addr) (timeout : UInt32)
    (again : UInt32 → Recv) : Mem × Outcome w :=
  if timeout = 0 then (freeItem h item, .timeout)
  else if timeout.toNat ≠ sizeMax w then (h, .again (again (timeout - 1)))
  else (h, .again (again timeout))

/-- One round of `luat_rtos_event_recv`, where `any` is `CORE_EVENT_ID_ANY`.  The
second component tells whether an item was popped. -/
def eventRecvRound (any : UInt32) (w : PtrSize) (h : Mem) (item : Option Addr)
    (wait timeout : UInt32) : Except Fault (Mem × Bool × Outcome w) := do
  match ← popPayload w sizeofEvent h queueAddr item with
  | (h, some bs) =>
    let outEvent := Event.ofBytes bs
    if wait = any ∨ outEvent.id = wait then
      return (freeItem h item, true, .event outEvent)
    else
      -- an event that is not waited for is dropped
      let (h, out) := expire w h item timeout (.event wait)
      return (h, true, out)
  | (h, none) =>
    let (h, out) := expire w h item timeout (.event wait)
    return (h, false, out)

/-- One round of `luat_rtos_message_recv`. -/
def messageRecvRound (w : PtrSize) (h : Mem) (item : Option Addr) (timeout : UInt32) :
    Except Fault (Mem × Bool × Outcome w) := do
  match ← popPayload w (sizeofMessage w) h queueAddr item with
  | (h, some bs) => return (freeItem h item, true, .message (.ofBytes w bs))
  | (h, none) =>
    let (h, out) := expire w h item timeout .message
    return (h, false, out)

/-! ## The task -/

/-- The memory of the task, and the receives that are under way with their items. -/
structure State where
  heap : Mem
  recvs : Thread → Option (Option Addr × Recv)

/-- One action.  The heap returns the block at `addr`, or `NULL`. -/
inductive Act (w : PtrSize)
  | send (s : Sent w) (addr : Option Addr) (junk : Nat → UInt8)
  /-- A receive is called and allocates its item. -/
  | recv (t : Thread) (r : Recv) (addr : Option Addr) (fields : Option Addr × Nat)
      (junk : Nat → UInt8)
  /-- One round of its loop. -/
  | round (t : Thread)

/-- What an action gives. -/
inductive Answer (w : PtrSize)
  | nothing
  | ret (r : Int)
  | round (popped : Bool) (out : Outcome w)
  | fault (f : Fault)
  deriving DecidableEq, Repr

/-- The two sending functions. -/
def send (h : Mem) (s : Sent w) (addr : Option Addr) (junk : Nat → UInt8) :
    Except Fault (Mem × Int) :=
  match s with
  | .event e => luatRtosEventSend w h e addr junk
  | .message m => luatRtosMessageSend h m addr junk

/-- The two receive loops. -/
def recvRound (any : UInt32) (w : PtrSize) (h : Mem) (item : Option Addr) :
    Recv → Except Fault (Mem × Bool × Outcome w)
  | .event wait timeout => eventRecvRound any w h item wait timeout
  | .message timeout => messageRecvRound w h item timeout

/-- The heap returns blocks that are not in use. -/
def Unused (h : Mem) (addr : Option Addr) : Prop := ∀ a ∈ addr, h.load a = none

instance (h : Mem) (addr : Option Addr) : Decidable (Unused h addr) :=
  inferInstanceAs (Decidable (∀ a ∈ addr, h.load a = none))

/-- The item that a receive allocates. -/
def allocItem (w : PtrSize) (h : Mem) (r : Recv) (addr : Option Addr)
    (fields : Option Addr × Nat) (junk : Nat → UInt8) : Mem :=
  match addr with
  | none => h
  | some a => h.store a (newBuffer w (r.size w) fields junk)

/-- The receive that goes on after a round. -/
def Outcome.rest (item : Option Addr) : Outcome w → Option (Option Addr × Recv)
  | again r => some (item, r)
  | _ => none

/-- One step. -/
def step (any : UInt32) (σ : State) : Act w → Option (State × Answer w)
  | .send s addr junk =>
    if Unused σ.heap addr then
      match send σ.heap s addr junk with
      | .error f => some (σ, .fault f)
      | .ok (h, ret) => some ({ σ with heap := h }, .ret ret)
    else none
  | .recv t r addr fields junk =>
    if σ.recvs t = none ∧ Unused σ.heap addr then
      some (⟨allocItem w σ.heap r addr fields junk, Function.update σ.recvs t (some (addr, r))⟩,
        .nothing)
    else none
  | .round t =>
    match σ.recvs t with
    | none => none
    | some (item, r) =>
      match recvRound any w σ.heap item r with
      | .error f => some (σ, .fault f)
      | .ok (h, popped, out) =>
        some (⟨h, Function.update σ.recvs t (out.rest item)⟩, .round popped out)

/-- The task as `luat_rtos_task_create` makes it. -/
def State.start (w : PtrSize) : State :=
  ⟨AList.singleton queueAddr ⟨none, 0, List.replicate (sizeofItem w - offsetofMsg w) 0⟩,
    fun _ => none⟩

/-- The task under every interleaving of calls. -/
def machine (any : UInt32) (w : PtrSize) : Machine State (Act w) (Answer w) :=
  ⟨.start w, step any⟩

/-- A transition of the task. -/
abbrev Trans (w : PtrSize) := Transition State (Act w) (Answer w)

/-- What a transition pushes. -/
def ins (e : Trans w) : List (Sent w) :=
  match e.act, e.out with
  | .send s _ _, .ret 0 => [s]
  | _, _ => []

/-- Whether a transition pops an item. -/
def takes (e : Trans w) : Bool :=
  match e.out with
  | .round popped _ => popped
  | _ => false

/-- What has been sent to the task, in the order of the pushes. -/
def sends (tr : List (Trans w)) : List (Sent w) := tr.flatMap ins

/-- How many items the receives have popped. -/
def pops (tr : List (Trans w)) : Nat := tr.countP takes

/-- A receive returns something. -/
def Returns (e : Trans w) (out : Outcome w) : Prop := ∃ popped, e.out = .round popped out

/-- What a receive may meet: an item of its own kind, or a message whose id an event
receive does not wait for. -/
def Suits (any : UInt32) : Recv → Sent w → Prop
  | .event _ _, .event _ => True
  | .event wait _, .message m => wait ≠ any ∧ m.id ≠ wait
  | .message _, .event _ => False
  | .message _, .message _ => True

instance (any : UInt32) (r : Recv) (s : Sent w) : Decidable (Suits any r s) :=
  match r, s with
  | .event _ _, .event _ => .isTrue trivial
  | .event wait _, .message m => inferInstanceAs (Decidable (wait ≠ any ∧ m.id ≠ wait))
  | .message _, .event _ => .isFalse id
  | .message _, .message _ => .isTrue trivial

/-- A round that finds an item finds one that suits it.  The item is the first of
those sent that has not been popped. -/
def MeetsOwn (any : UInt32) (pre : List (Trans w)) (e : Trans w) : Prop :=
  match e.act with
  | .round t =>
    match e.src.recvs t, (sends pre)[pops pre]? with
    | some (some _, r), some s => Suits any r s
    | _, _ => True
  | _ => True

/-! ## A task is a queue of both kinds -/

/-- The buffers, each made for the payload of its receive. -/
def State.bufs (w : PtrSize) (σ : State) (t : Thread) : Option (Addr × Nat) :=
  (σ.recvs t).bind fun p => p.1.map fun a => (a, p.2.size w)

/-- The task holds these: they are the payloads of the items in its queue. -/
def Holds (w : PtrSize) (σ : State) (sent : List (Sent w)) : Prop :=
  ∃ items, Shape w σ.heap queueAddr (σ.bufs w) items ∧
    List.Forall₂ (fun x s => Carries w x.2 (Sent.bytes s)) items sent

theorem holds_start (w : PtrSize) : Holds w (.start w) [] := by
  refine ⟨[], ⟨⟨_, .cons rfl .nil⟩, ?_, ?_⟩, .nil⟩
  · intro t a n h
    cases h
  · intro t t' a n n' h
    cases h

theorem bufs_update (σ : State) (h : Mem) (t : Thread) (p : Option (Option Addr × Recv)) :
    (⟨h, Function.update σ.recvs t p⟩ : State).bufs w =
      Function.update (σ.bufs w) t (p.bind fun p => p.1.map fun a => (a, p.2.size w)) := by
  funext t'
  simp only [State.bufs, Function.update_apply]
  split <;> rfl

section

variable {any : UInt32} {σ σ' : State} {sent : List (Sent w)} {t : Thread} {item : Option Addr}
  {r : Recv}

/-- A send with memory puts its payload behind the others. -/
theorem Holds.send (h : Holds w σ sent) (s : Sent w) (junk : Nat → UInt8) {a : Addr}
    (ha : σ.heap.load a = none) :
    ∃ h', Task.send σ.heap s (some a) junk = .ok (h', 0) ∧
      Holds w { σ with heap := h' } (sent ++ [s]) := by
  obtain ⟨items, hshape, hitems⟩ := h
  obtain ⟨h', x, hsend, hcarries, hshape'⟩ := hshape.send ha s.bytes junk
  refine ⟨h', ?_, items ++ [(a, x)], hshape', List.rel_append hitems (.cons hcarries .nil)⟩
  cases s <;> exact hsend

/-- A receive gets its item. -/
theorem Holds.begin (h : Holds w σ sent) (fields : Option Addr × Nat) (junk : Nat → UInt8)
    {a : Addr} (ha : σ.heap.load a = none) :
    Holds w ⟨σ.heap.store a (newBuffer w (r.size w) fields junk),
      Function.update σ.recvs t (some (some a, r))⟩ sent := by
  obtain ⟨items, hshape, hitems⟩ := h
  refine ⟨items, ?_, hitems⟩
  rw [bufs_update]
  exact hshape.begin ha (length_alloc _ _)

/-- A change of a receive that leaves its buffer as it is. -/
theorem Holds.sameBuf (h : Holds w σ sent) {p : Option (Option Addr × Recv)}
    (hp : (p.bind fun p => p.1.map fun a => (a, p.2.size w)) = σ.bufs w t) :
    Holds w ⟨σ.heap, Function.update σ.recvs t p⟩ sent := by
  obtain ⟨items, hshape, hitems⟩ := h
  refine ⟨items, ?_, hitems⟩
  rw [bufs_update, hp, Function.update_eq_self]
  exact hshape

/-- The item that suits a receive has room in its buffer. -/
theorem Suits.length_le {s : Sent w} (h : Suits any r s) : s.bytes.length ≤ r.size w := by
  match r, s, h with
  | .event _ _, .event e, _ => exact (length_eventBytes e).le
  | .event _ _, .message m, _ =>
    refine (length_messageBytes m).trans_le ?_
    show sizeofMessage w ≤ sizeofEvent
    cases w <;> decide
  | .message _, .message m, _ => exact (length_messageBytes m).le

/-- A receive finds nothing: there is no item, or it has no buffer. -/
theorem Holds.pop_none (h : Holds w σ sent) (hnone : item = none ∨ sent = []) (n : Nat) :
    popPayload w n σ.heap queueAddr item = .ok (σ.heap, none) := by
  obtain ⟨items, hshape, hitems⟩ := h
  rcases hnone with rfl | rfl
  · rfl
  · cases hitems
    exact hshape.receive_empty item

/-- A receive finds an item. -/
theorem Holds.pop_some {s : Sent w} {a : Addr} (h : Holds w σ (s :: sent))
    (ht : σ.recvs t = some (some a, r)) (hs : s.bytes.length ≤ r.size w) :
    ∃ h' bs, popPayload w (r.size w) σ.heap queueAddr (some a) = .ok (h', some bs) ∧
      Holds w { σ with heap := h' } sent ∧ bs.length = r.size w ∧
      bs.take s.bytes.length = s.bytes := by
  obtain ⟨_, hshape, hitems⟩ := h
  cases hitems with
  | @cons x _ items _ hx hrest =>
    have hbuf : σ.bufs w t = some (a, r.size w) := by simp [State.bufs, ht]
    obtain ⟨h', bs, hpop, hshape', hlen, hbytes⟩ := hshape.receive (a := x.1) hbuf hx hs
    exact ⟨h', bs, hpop, ⟨items, hshape', hrest⟩, hlen, hbytes⟩

/-- A receive returns and frees its item. -/
theorem Holds.finish (h : Holds w σ sent) (ht : σ.recvs t = some (item, r)) :
    Holds w ⟨freeItem σ.heap item, Function.update σ.recvs t none⟩ sent := by
  cases item with
  | none => exact h.sameBuf (by simp [State.bufs, ht])
  | some a =>
    obtain ⟨items, hshape, hitems⟩ := h
    have hbufs : σ.bufs w t = some (a, r.size w) := by simp [State.bufs, ht]
    refine ⟨items, ?_, hitems⟩
    rw [bufs_update]
    exact hshape.finish hbufs

/-- A receive goes on. -/
theorem Holds.again (h : Holds w σ sent) (ht : σ.recvs t = some (item, r)) {r' : Recv}
    (hsize : r'.size w = r.size w) :
    Holds w ⟨σ.heap, Function.update σ.recvs t (some (item, r'))⟩ sent :=
  h.sameBuf (by simp [State.bufs, ht, hsize])

/-- The end of a round that returns nothing. -/
theorem Holds.expire (h : Holds w σ sent) (ht : σ.recvs t = some (item, r)) (timeout : UInt32)
    {again : UInt32 → Recv} (hsize : ∀ n, (again n).size w = r.size w) :
    ∃ h' out, Task.expire w σ.heap item timeout again = (h', out) ∧
      Holds w ⟨h', Function.update σ.recvs t (out.rest item)⟩ sent ∧
      (out = .timeout ∨ ∃ r', out = .again r') := by
  unfold Task.expire
  split
  · exact ⟨_, _, rfl, h.finish ht, .inl rfl⟩
  · split
    · exact ⟨_, _, rfl, h.again ht (hsize _), .inr ⟨_, rfl⟩⟩
    · exact ⟨_, _, rfl, h.again ht (hsize _), .inr ⟨_, rfl⟩⟩

/-- What a round comes to, for a task that holds `sent`: an item is popped or not,
and what is returned was sent. -/
structure RoundOk (w : PtrSize) (recvs : Thread → Option (Option Addr × Recv)) (t : Thread)
    (item : Option Addr) (sent : List (Sent w)) (h' : Mem) (popped : Bool) (out : Outcome w) :
    Prop where
  holds : ∃ gone rest, sent = gone ++ rest ∧ gone.length = popped.toNat ∧
    Holds w ⟨h', Function.update recvs t (out.rest item)⟩ rest
  event : ∀ e, out = .event e → .event e ∈ sent
  message : ∀ m, out = .message m → .message m ∈ sent

/-- A round that returns nothing. -/
theorem Holds.roundOk_expire (h : Holds w σ sent) (ht : σ.recvs t = some (item, r))
    (timeout : UInt32) (again : UInt32 → Recv) (hsize : ∀ n, (again n).size w = r.size w)
    (gone : List (Sent w)) (popped : Bool) (hgone : gone.length = popped.toNat) :
    RoundOk w σ.recvs t item (gone ++ sent) (Task.expire w σ.heap item timeout again).1 popped
      (Task.expire w σ.heap item timeout again).2 := by
  obtain ⟨h', out, heq, hholds, hout⟩ := h.expire ht timeout hsize
  rw [heq]
  refine ⟨⟨gone, sent, rfl, hgone, hholds⟩, ?_, ?_⟩
  all_goals
    rintro x rfl
    rcases hout with hout | ⟨r', hout⟩ <;> cases hout

/-- **A round that finds nothing** ends without a result. -/
theorem Holds.round_none (h : Holds w σ sent) (ht : σ.recvs t = some (item, r))
    (hnone : item = none ∨ sent = []) :
    ∃ h' popped out, recvRound any w σ.heap item r = .ok (h', popped, out) ∧
      RoundOk w σ.recvs t item sent h' popped out := by
  cases r with
  | event wait timeout =>
    refine ⟨_, _, _, ?_, h.roundOk_expire ht timeout (.event wait) (fun _ => rfl) [] false rfl⟩
    simp only [recvRound, eventRecvRound, h.pop_none hnone, bind, Except.bind]
    rfl
  | message timeout =>
    refine ⟨_, _, _, ?_, h.roundOk_expire ht timeout .message (fun _ => rfl) [] false rfl⟩
    simp only [recvRound, messageRecvRound, h.pop_none hnone, bind, Except.bind]
    rfl

/-- A round of an event receive that pops an item. -/
theorem recvRound_event {h h' : Mem} {bs : List UInt8} {wait timeout : UInt32}
    (hpop : popPayload w sizeofEvent h queueAddr item = .ok (h', some bs)) :
    recvRound any w h item (.event wait timeout) =
      if wait = any ∨ (Event.ofBytes bs).id = wait then
        .ok (freeItem h' item, true, .event (Event.ofBytes bs))
      else .ok ((Task.expire w h' item timeout (.event wait)).1, true,
        (Task.expire w h' item timeout (.event wait)).2) := by
  simp only [recvRound, eventRecvRound, hpop, bind, Except.bind]
  rfl

/-- **A round that finds an item** that suits it returns the item, or drops it. -/
theorem Holds.round_some {s : Sent w} {a : Addr} (h : Holds w σ (s :: sent))
    (ht : σ.recvs t = some (some a, r)) (hs : Suits any r s) :
    ∃ h' popped out, recvRound any w σ.heap (some a) r = .ok (h', popped, out) ∧
      RoundOk w σ.recvs t (some a) (s :: sent) h' popped out := by
  obtain ⟨h', bs, hpop, hholds, hlen, hbytes⟩ := h.pop_some ht hs.length_le
  cases r with
  | event wait timeout =>
    have hexpire := hholds.roundOk_expire ht timeout (.event wait) (fun _ => rfl) [s] true rfl
    rw [recvRound_event hpop]
    split
    next hwait =>
      refine ⟨_, _, _, rfl, ⟨[s], sent, rfl, rfl, hholds.finish ht⟩, ?_, fun m hm => nomatch hm⟩
      rintro e he
      cases s with
      | event e' =>
        rw [Sent.bytes, length_eventBytes, ← (show bs.length = sizeofEvent from hlen),
          List.take_length] at hbytes
        cases he
        rw [hbytes, event_ofBytes_bytes]
        exact List.mem_cons_self
      | message m =>
        -- the id of the message is not the one waited for
        rcases hwait with hwait | hwait
        · exact absurd hwait hs.1
        · exact absurd ((event_ofBytes_id hbytes).symm.trans hwait) hs.2
    next => exact ⟨_, _, _, rfl, hexpire⟩
  | message timeout =>
    cases s with
    | event e => exact absurd hs id
    | message m =>
      have hbs : bs = m.bytes := by
        rw [Sent.bytes, length_messageBytes, ← (show bs.length = sizeofMessage w from hlen),
          List.take_length] at hbytes
        exact hbytes
      have hround : recvRound any w σ.heap (some a) (.message timeout) =
          .ok (freeItem h' (some a), true, .message m) := by
        rw [Recv.size] at hpop
        simp only [recvRound, messageRecvRound, hpop, bind, Except.bind, hbs,
          message_ofBytes_bytes]
        rfl
      refine ⟨_, _, _, hround, ⟨[.message m], sent, rfl, rfl, hholds.finish ht⟩,
        (fun e he => nomatch he), ?_⟩
      rintro m' hm'
      cases hm'
      exact List.mem_cons_self

/-- What a transition comes to, for a task that holds `sent`. -/
structure StepOk (sent : List (Sent w)) (e : Trans w) : Prop where
  holds : ∃ gone rest, sent ++ ins e = gone ++ rest ∧ gone.length = (takes e).toNat ∧
    Holds w e.dst rest
  fault : ∀ t f, e.act = .round t → e.out ≠ .fault f
  event : ∀ ev, Returns e (.event ev) → .event ev ∈ sent
  message : ∀ m, Returns e (.message m) → .message m ∈ sent

/-- A transition that is no round. -/
theorem StepOk.of_not_round {e : Trans w} (hact : ∀ t, e.act ≠ .round t)
    (hout : ∀ popped out, e.out ≠ .round popped out) (h : Holds w e.dst (sent ++ ins e)) :
    StepOk sent e := by
  have htakes : takes e = false := by
    unfold takes
    split
    next popped out heq => exact absurd heq (hout popped out)
    next => rfl
  refine ⟨⟨[], sent ++ ins e, rfl, by simp [htakes], h⟩, fun t f ht => absurd ht (hact t), ?_, ?_⟩
  · rintro ev ⟨popped, heq⟩
    exact absurd heq (hout _ _)
  · rintro m ⟨popped, heq⟩
    exact absurd heq (hout _ _)

/-- **One step**, in which a receive finds nothing or something that suits it. -/
theorem step_refines (h : Holds w σ sent) {a : Act w} {o : Answer w}
    (hs : step any σ a = some (σ', o))
    (hsuits : ∀ t i r s, a = .round t → σ.recvs t = some (some i, r) → sent.head? = some s →
      Suits any r s) :
    StepOk sent ⟨σ, a, o, σ'⟩ := by
  cases a with
  | send s addr junk =>
    rw [step] at hs
    split at hs
    next hunused =>
      cases addr with
      | none =>
        -- without memory nothing is pushed
        cases s <;> cases hs <;>
          exact .of_not_round (fun t ht => nomatch ht) (fun _ _ ho => nomatch ho)
            (by simpa [ins] using h)
      | some a =>
        obtain ⟨h', hsend, hholds⟩ := h.send s junk (hunused a rfl)
        rw [hsend] at hs
        cases hs
        exact .of_not_round (fun t ht => nomatch ht) (fun _ _ ho => nomatch ho) hholds
    next => cases hs
  | recv t r addr fields junk =>
    rw [step] at hs
    split at hs
    next hfree =>
      cases hs
      refine .of_not_round (fun t ht => nomatch ht) (fun _ _ ho => nomatch ho) ?_
      show Holds w _ (sent ++ [])
      rw [List.append_nil]
      cases addr with
      | none => exact h.sameBuf (by simp [State.bufs, hfree.1])
      | some a => exact h.begin fields junk (hfree.2 a rfl)
    next => cases hs
  | round t =>
    rw [step] at hs
    cases ht : σ.recvs t with
    | none =>
      rw [ht] at hs
      cases hs
    | some p =>
      obtain ⟨item, r⟩ := p
      obtain ⟨h', popped, out, hround, hok⟩ :
          ∃ h' popped out, recvRound any w σ.heap item r = .ok (h', popped, out) ∧
            RoundOk w σ.recvs t item sent h' popped out := by
        match item, sent, h, ht, hsuits with
        | none, _, h, ht, _ => exact h.round_none ht (.inl rfl)
        | some a, [], h, ht, _ => exact h.round_none ht (.inr rfl)
        | some a, s :: sent, h, ht, hsuits =>
          exact h.round_some ht (hsuits t a r s rfl ht rfl)
      simp only [ht, hround] at hs
      cases hs
      refine ⟨by simpa [ins, takes] using hok.holds, (fun _ f _ hf => nomatch hf), ?_, ?_⟩
      · rintro e ⟨_, he⟩
        cases he
        exact hok.event e rfl
      · rintro m ⟨_, he⟩
        cases he
        exact hok.message m rfl

/-- The condition on a transition, for the item that is first in the task. -/
theorem MeetsOwn.suits {tr : List (Trans w)} {e : Trans w} {gone : List (Sent w)}
    (h : MeetsOwn any tr e) (hsends : sends tr = gone ++ sent) (hgone : gone.length = pops tr)
    {i : Addr} {s : Sent w} (hact : e.act = .round t) (ht : e.src.recvs t = some (some i, r))
    (hhead : sent.head? = some s) : Suits any r s := by
  have hnext : (sends tr)[pops tr]? = some s := by
    rw [hsends, ← hgone, List.getElem?_append_right (Nat.le_refl _), Nat.sub_self,
      ← List.head?_eq_getElem?, hhead]
  simpa only [MeetsOwn, hact, ht, hnext] using h

/-- **A run.**  What the receives have left of the items sent is what the task
holds. -/
theorem run_holds {tr : List (Trans w)} (h : Run (machine any w) tr σ)
    (hmeets : ∀ pre e post, tr = pre ++ e :: post → MeetsOwn any pre e) :
    ∃ gone sent, sends tr = gone ++ sent ∧ gone.length = pops tr ∧ Holds w σ sent := by
  refine h.history_invariant
    (I := fun tr σ => ∃ gone sent, sends tr = gone ++ sent ∧ gone.length = pops tr ∧ Holds w σ sent)
    (C := MeetsOwn any) hmeets ⟨[], [], rfl, rfl, holds_start w⟩ ?_
  rintro tr σ a σ' o - ⟨gone, sent, hsends, hgone, hholds⟩ hs hmeet
  have hok := step_refines hholds hs fun t i r s ha ht hhead =>
    hmeet.suits hsends hgone ha ht hhead
  obtain ⟨gone', rest, heq, hlen, hholds'⟩ := hok.holds
  refine ⟨gone ++ gone', rest, ?_, ?_, hholds'⟩
  · rw [List.append_assoc, ← heq, ← List.append_assoc, ← hsends]
    simp [sends]
  · rw [List.length_append, hgone, hlen, pops, pops, List.countP_append, List.countP_singleton]
    cases takes (⟨σ, a, o, σ'⟩ : Trans w) <;> rfl

end

/-- **Events and messages do not mix** as long as every receive that finds an item
finds one of its own kind (or a message that it drops): no receive copies outside
its buffer, every event it returns was sent as an event, and every message as a
message. -/
theorem task_traffic_apart (any : UInt32) (w : PtrSize) {tr : List (Trans w)} {σ : State}
    (h : Run (machine any w) tr σ)
    (hmeets : ∀ pre e post, tr = pre ++ e :: post → MeetsOwn any pre e)
    {pre post : List (Trans w)} {e : Trans w} (he : tr = pre ++ e :: post) :
    (∀ t f, e.act = .round t → e.out ≠ .fault f) ∧
    (∀ ev, Returns e (.event ev) → .event ev ∈ sends pre) ∧
    (∀ m, Returns e (.message m) → .message m ∈ sends pre) := by
  obtain ⟨hpre, hs⟩ := h.split he
  have hmeets' : ∀ pre' e' post', pre = pre' ++ e' :: post' → MeetsOwn any pre' e' := by
    rintro pre' e' post' rfl
    exact hmeets pre' e' (post' ++ e :: post) (by simp [he])
  obtain ⟨gone, sent, hsends, hgone, hholds⟩ := run_holds hpre hmeets'
  have hok := step_refines hholds hs fun t i r s ha ht hhead =>
    (hmeets pre e post he).suits hsends hgone ha ht hhead
  rw [hsends]
  exact ⟨hok.fault, fun ev hev => List.mem_append_right _ (hok.event ev hev),
    fun m hm => List.mem_append_right _ (hok.message m hm)⟩

/-- An event and a message are sent and received in that order. -/
def ownOrder : List (Act .four) :=
  [.send (.event ⟨1, 2, 3, 4⟩) (some 1) fun _ => 7, .send (.message ⟨5, 6⟩) (some 2) fun _ => 7,
    .recv 0 (.event 1 0) (some 3) (none, 0) fun _ => 7, .round 0,
    .recv 0 (.message 0) (some 4) (none, 0) fun _ => 7, .round 0]

theorem task_traffic_apart_ownOrder :
    .message ⟨5, 6⟩ ∈ sends (((machine 0 .four).traceOf ownOrder).take 5) := by
  have hexec : ((machine 0 .four).exec (machine 0 .four).init ownOrder).isSome = true := by decide
  have hmeets : (machine 0 .four).Along (MeetsOwn 0) [] (machine 0 .four).init ownOrder :=
    ⟨trivial, trivial, trivial, trivial, trivial, trivial, trivial⟩
  have h5 : 5 < ((machine 0 .four).traceOf ownOrder).length := by decide
  have hsplit : (machine 0 .four).traceOf ownOrder =
      ((machine 0 .four).traceOf ownOrder).take 5 ++
        ((machine 0 .four).traceOf ownOrder)[5] :: ((machine 0 .four).traceOf ownOrder).drop 6 := by
    simp
  exact (task_traffic_apart 0 .four (Machine.run_exec hexec)
    (fun pre e post heq => Machine.along_traceOf hmeets heq) hsplit).2.2 _ ⟨true, rfl⟩

/-- A message receive is called on a task to which an event was sent. -/
def eventForMessage (w : PtrSize) : List (Act w) :=
  [.send (.event ⟨1, 2, 3, 4⟩) (some 1) fun _ => 0,
    .recv 0 (.message 0) (some 2) (none, 0) fun _ => 0, .round 0]

/-- With pointers of four bytes the receive copies outside its buffer; with pointers of
eight bytes it returns a message that nobody sent, made of the fields of the event. -/
theorem messageRecv_meets_event :
    (Run (machine 0 .four) ((machine 0 .four).traceOf (eventForMessage .four))
        ((machine 0 .four).stateOf (eventForMessage .four)) ∧
      ((machine 0 .four).traceOf (eventForMessage .four)).map Transition.out =
        [.ret 0, .nothing, .fault .outside]) ∧
    Run (machine 0 .eight) ((machine 0 .eight).traceOf (eventForMessage .eight))
        ((machine 0 .eight).stateOf (eventForMessage .eight)) ∧
      ((machine 0 .eight).traceOf (eventForMessage .eight)).map Transition.out =
        [.ret 0, .nothing, .round true (.message ⟨1, 0x400000003⟩)] ∧
      sends ((machine 0 .eight).traceOf (eventForMessage .eight)) = [.event ⟨1, 2, 3, 4⟩] :=
  ⟨⟨Machine.run_exec (by decide), by decide⟩, Machine.run_exec (by decide), by decide, by decide⟩

end LuatosPc.Rtos.Task
