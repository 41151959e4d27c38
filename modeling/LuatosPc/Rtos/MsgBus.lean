import LuatosPc.Base.Fifo
import LuatosPc.Rtos.Queue

/-!
# The message bus

The model of `luat_msgbus_pc.c`: one queue through which everything is delivered
to the Lua machine.  Any thread puts messages, any thread may wait for one; a
push and a pop are atomic, as the mutex makes them.  What a thread does to its own
block before a push and after a pop no other thread can see, and is part of the
same step.

* `luatMsgbusPut`, `luatMsgbusIsEmpty` — the functions of the source; `getRound`
  — one round of the loop of `luat_msgbus_get`.
* `Bus`, `Act`, `step`, `machine` — the bus under every interleaving of calls.
  The actions say which block the heap returns and what stands in it.
* `Holds` — the queue of messages that a state of the bus stands for.
* `step_refines` — a put adds its message behind the others, a get takes the
  first, and no step goes wrong; `msgbus_fifo` — so does every run.
-/

namespace LuatosPc.Rtos.MsgBus

open LuatosPc.Bytes LuatosPc.Linked

/-- The bytes of an `rtos_msg_t`, of which there are `m`. -/
abbrev Msg (m : Nat) := { bytes : List UInt8 // bytes.length = m }

/-- The address of the static `head`. -/
def headAddr : Addr := 0

/-- `luat_msgbus_put`, for which the heap returns the block at `addr`. -/
def luatMsgbusPut (w : PtrSize) (h : Mem) (msg : List UInt8) (addr : Addr)
    (junk : Nat → UInt8) : Except Fault (Mem × Int) :=
  sendItem w h headAddr msg addr junk

/-- One round of the loop of `luat_msgbus_get`: the message, if there is one. -/
def getRound (w : PtrSize) (m : Nat) (h : Mem) (item : Addr) :
    Except Fault (Mem × Option (List UInt8)) := do
  match ← popPayload w m h headAddr (some item) with
  | (h, some msg) => return (h.free item, some msg)
  | (h, none) => return (h, none)

/-- `luat_msgbus_is_empty`. -/
def luatMsgbusIsEmpty (h : Mem) : Except Fault UInt8 := do
  let head ← load h headAddr
  return if head.next = none then 1 else 0

/-- The memory of the bus, and the buffers of the threads in `luat_msgbus_get`. -/
structure Bus where
  heap : Mem
  gets : Thread → Option Addr

/-- One action. -/
inductive Act (m : Nat)
  | put (msg : Msg m) (addr : Addr) (junk : Nat → UInt8)
  /-- `luat_msgbus_get` is called and allocates its item. -/
  | get (t : Thread) (addr : Addr) (fields : Option Addr × Nat) (junk : Nat → UInt8)
  /-- One round of its loop. -/
  | round (t : Thread)
  | isEmpty

/-- What an action gives to its caller. -/
inductive Answer
  | nothing
  | ret (r : Int)
  | got (msg : List UInt8)
  | empty (r : UInt8)
  | fault (f : Fault)
  deriving DecidableEq

variable {w : PtrSize} {m : Nat}

/-- One step.  The heap returns blocks that are not in use. -/
def step (w : PtrSize) (σ : Bus) : Act m → Option (Bus × Answer)
  | .put msg addr junk =>
    if σ.heap.load addr = none then
      match luatMsgbusPut w σ.heap msg addr junk with
      | .error f => some (σ, .fault f)
      | .ok (h, ret) => some ({ σ with heap := h }, .ret ret)
    else none
  | .get t addr fields junk =>
    if σ.gets t = none ∧ σ.heap.load addr = none then
      some (⟨σ.heap.store addr (newBuffer w m fields junk), Function.update σ.gets t (some addr)⟩,
        .nothing)
    else none
  | .round t =>
    match σ.gets t with
    | none => none
    | some item =>
      match getRound w m σ.heap item with
      | .error f => some (σ, .fault f)
      | .ok (h, none) => some ({ σ with heap := h }, .nothing)
      | .ok (h, some msg) => some (⟨h, Function.update σ.gets t none⟩, .got msg)
  | .isEmpty =>
    match luatMsgbusIsEmpty σ.heap with
    | .error f => some (σ, .fault f)
    | .ok r => some (σ, .empty r)

/-- The static `head`, all zeros, and no thread in a call. -/
def Bus.start (w : PtrSize) : Bus :=
  ⟨AList.singleton headAddr ⟨none, 0, List.replicate (sizeofItem w - offsetofMsg w) 0⟩,
    fun _ => none⟩

/-- The bus under every interleaving of calls, with messages of `m` bytes. -/
def machine (w : PtrSize) (m : Nat) : Machine Bus (Act m) Answer := ⟨.start w, step w⟩

/-- A transition of the bus. -/
abbrev Trans (m : Nat) := Transition Bus (Act m) Answer

/-- The message a transition puts. -/
def ins (e : Trans m) : List (List UInt8) :=
  match e.act with
  | .put msg _ _ => [msg.1]
  | _ => []

/-- The message a transition hands out. -/
def outs (e : Trans m) : List (List UInt8) :=
  match e.out with
  | .got msg => [msg]
  | _ => []

/-- The messages put, in the order of the pushes. -/
def puts (tr : List (Trans m)) : List (List UInt8) := tr.flatMap ins

/-- The messages returned by `luat_msgbus_get`, in order. -/
def gots (tr : List (Trans m)) : List (List UInt8) := tr.flatMap outs

/-! ## A bus is a queue -/

/-- The buffers, each made for one message. -/
def Bus.bufs (m : Nat) (σ : Bus) (t : Thread) : Option (Addr × Nat) :=
  (σ.gets t).map fun a => (a, m)

/-- The bus holds these messages: they are the payloads of the items linked from
`head`. -/
def Holds (w : PtrSize) (m : Nat) (σ : Bus) (msgs : List (List UInt8)) : Prop :=
  ∃ items, Shape w σ.heap headAddr (σ.bufs m) items ∧
    List.Forall₂ (fun x msg => Carries w x.2 msg ∧ msg.length = m) items msgs

theorem holds_start (w : PtrSize) (m : Nat) : Holds w m (.start w) [] := by
  refine ⟨[], ⟨⟨_, .cons rfl .nil⟩, ?_, ?_⟩, .nil⟩
  · intro t a n h
    cases h
  · intro t t' a n n' h
    cases h

theorem bufs_update (σ : Bus) (h : Mem) (t : Thread) (a : Option Addr) :
    (⟨h, Function.update σ.gets t a⟩ : Bus).bufs m =
      Function.update (σ.bufs m) t (a.map fun a => (a, m)) := by
  funext t'
  simp only [Bus.bufs, Function.update_apply]
  split <;> rfl

section

variable {σ σ' : Bus} {msgs : List (List UInt8)} {o : Answer}

/-- A put succeeds and adds its message behind the others. -/
theorem Holds.put (h : Holds w m σ msgs) (msg : Msg m) (junk : Nat → UInt8) {addr : Addr}
    (haddr : σ.heap.load addr = none) :
    ∃ h', luatMsgbusPut w σ.heap msg addr junk = .ok (h', 0) ∧
      Holds w m { σ with heap := h' } (msgs ++ [msg.1]) := by
  obtain ⟨items, hshape, hitems⟩ := h
  obtain ⟨h', x, hsend, hcarries, hshape'⟩ := hshape.send haddr msg.1 junk
  exact ⟨h', hsend, items ++ [(addr, x)], hshape',
    List.rel_append hitems (.cons ⟨hcarries, msg.2⟩ .nil)⟩

/-- A round without a message changes nothing. -/
theorem Holds.round_empty (h : Holds w m σ []) (item : Addr) :
    getRound w m σ.heap item = .ok (σ.heap, none) := by
  obtain ⟨items, hshape, hitems⟩ := h
  cases hitems
  simp only [getRound, hshape.receive_empty, bind, Except.bind]
  rfl

/-- A round with messages takes the first of them. -/
theorem Holds.round_some {msg : List UInt8} {t : Thread} {item : Addr}
    (h : Holds w m σ (msg :: msgs)) (ht : σ.gets t = some item) :
    ∃ h', getRound w m σ.heap item = .ok (h', some msg) ∧
      Holds w m ⟨h', Function.update σ.gets t none⟩ msgs := by
  obtain ⟨_, hshape, hitems⟩ := h
  cases hitems with
  | @cons x _ items _ hx hrest =>
    obtain ⟨hcarries, hlen⟩ := hx
    have hbuf : σ.bufs m t = some (item, m) := by simp [Bus.bufs, ht]
    obtain ⟨h', bs, hpop, hshape', hbs, hbytes⟩ := hshape.receive (a := x.1) hbuf hcarries hlen.le
    obtain rfl : bs = msg := by rwa [hlen, ← hbs, List.take_length] at hbytes
    refine ⟨h'.free item, ?_, items, ?_, hrest⟩
    · simp only [getRound, hpop, bind, Except.bind]
      rfl
    · rw [bufs_update]
      exact hshape'.finish hbuf

/-- `luat_msgbus_is_empty` tells whether there are messages. -/
theorem Holds.isEmpty (h : Holds w m σ msgs) :
    luatMsgbusIsEmpty σ.heap = .ok (if msgs = [] then 1 else 0) := by
  obtain ⟨items, ⟨⟨d, hd⟩, -, -⟩, hitems⟩ := h
  cases hd with
  | @cons _ v _ hv hrest =>
    simp only [luatMsgbusIsEmpty, load_eq_ok hv, bind, Except.bind]
    generalize v.next = p at hrest
    cases hrest with
    | nil =>
      cases hitems
      rfl
    | cons _ _ =>
      cases hitems
      rfl

/-- **One step.**  A put adds its message behind the others, a get that returns
takes the first, nothing else changes the queue, and no step goes wrong. -/
theorem step_refines (h : Holds w m σ msgs) {a : Act m} (hs : step w σ a = some (σ', o)) :
    (∃ msgs', Holds w m σ' msgs' ∧
      outs (⟨σ, a, o, σ'⟩ : Trans m) ++ msgs' = msgs ++ ins (⟨σ, a, o, σ'⟩ : Trans m)) ∧
    ∀ f, o ≠ .fault f := by
  cases a with
  | put msg addr junk =>
    rw [step] at hs
    split at hs
    next haddr =>
      obtain ⟨h', hput, hholds⟩ := h.put msg junk haddr
      rw [hput] at hs
      cases hs
      exact ⟨⟨_, hholds, rfl⟩, by simp⟩
    next => cases hs
  | get t addr fields junk =>
    rw [step] at hs
    split at hs
    next hfree =>
      cases hs
      obtain ⟨items, hshape, hitems⟩ := h
      refine ⟨⟨msgs, ⟨items, ?_, hitems⟩, by simp [outs, ins]⟩, by simp⟩
      rw [bufs_update]
      exact hshape.begin hfree.2 (length_alloc _ _)
    next => cases hs
  | round t =>
    rw [step] at hs
    cases ht : σ.gets t with
    | none =>
      rw [ht] at hs
      cases hs
    | some item =>
      simp only [ht] at hs
      cases msgs with
      | nil =>
        rw [h.round_empty item] at hs
        cases hs
        exact ⟨⟨[], h, rfl⟩, by simp⟩
      | cons msg msgs =>
        obtain ⟨h', hround, hholds⟩ := h.round_some ht
        rw [hround] at hs
        cases hs
        exact ⟨⟨msgs, hholds, by simp [outs, ins]⟩, by simp⟩
  | isEmpty =>
    rw [step, h.isEmpty] at hs
    cases hs
    exact ⟨⟨msgs, h, by simp [outs, ins]⟩, by simp⟩

/-- The payloads of the items that a state holds. -/
theorem Holds.payloads (h : Holds w m σ msgs) :
    ∃ items, Linked σ.heap headAddr items ∧ items.map (fun x => x.2.2.take x.2.1) = msgs := by
  obtain ⟨items, hshape, hitems⟩ := h
  refine ⟨items, hshape.linked, ?_⟩
  refine List.forall₂_eq_eq_eq ▸ List.forall₂_map_left_iff.2 (hitems.imp ?_)
  intro x msg hx
  rw [hx.1.size, hx.1.bytes]

end

/-- **The message bus is a lossless queue.**  In every run, for both sizes of
pointers, no copy leaves a block; the messages returned are the first of those
put, byte for byte; the others are the payloads of the items linked from `head`,
in order; and `luat_msgbus_is_empty` tells whether there are any. -/
theorem msgbus_fifo (w : PtrSize) (m : Nat) {tr : List (Trans m)} {σ : Bus}
    (h : Run (machine w m) tr σ) :
    (∀ e ∈ tr, ∀ f, e.out ≠ .fault f) ∧
    (∃ items, Linked σ.heap headAddr items ∧
      gots tr ++ items.map (fun x => x.2.2.take x.2.1) = puts tr) ∧
    luatMsgbusIsEmpty σ.heap = .ok (if gots tr = puts tr then 1 else 0) := by
  have holds : ∀ {tr σ}, Run (machine w m) tr σ →
      ∃ msgs, Holds w m σ msgs ∧ gots tr ++ msgs = puts tr := fun h =>
    h.fifo (holds_start w m) fun _ _ _ _ _ hR hs => (step_refines hR hs).1
  refine ⟨?_, ?_, ?_⟩
  · intro e he
    obtain ⟨pre, post, rfl⟩ := List.append_of_mem he
    obtain ⟨hpre, hs⟩ := h.split rfl
    obtain ⟨msgs, hR, -⟩ := holds hpre
    exact (step_refines hR hs).2
  · obtain ⟨msgs, hR, hlaw⟩ := holds h
    obtain ⟨items, hlinked, rfl⟩ := hR.payloads
    exact ⟨items, hlinked, hlaw⟩
  · obtain ⟨msgs, hR, hlaw⟩ := holds h
    rw [hR.isEmpty, ← hlaw]
    simp

/-- Two messages are put while a thread waits, which then gets the first. -/
def twoPuts : List (Act 2) :=
  [.get 0 3 (none, 0) fun _ => 7, .round 0, .put ⟨[1, 2], rfl⟩ 4 fun _ => 7,
    .put ⟨[3, 4], rfl⟩ 5 fun _ => 7, .round 0]

theorem msgbus_fifo_twoPuts :
    ∃ items, Linked ((machine .eight 2).stateOf twoPuts).heap headAddr items ∧
      [[1, 2]] ++ items.map (fun x => x.2.2.take x.2.1) = [[1, 2], [3, 4]] := by
  have hexec : ((machine .eight 2).exec (machine .eight 2).init twoPuts).isSome = true := by decide
  exact (msgbus_fifo .eight 2 (Machine.run_exec hexec)).2.1

end LuatosPc.Rtos.MsgBus
