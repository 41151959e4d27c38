import LuatosPc.Driver.Touch

/-!
# The ring of the touch panel as a queue

What `enqueue_event`, `dequeue_event` and `get_queue_count` are for: a queue of at most seven
events that loses its oldest event to a new one.

* `RingAct`, `ringStep`, `ringMachine` — the three functions in any order, from the state that
  `luat_tp_pc_init` leaves.
* `fifoStep`, `fifoMachine` — the queue: a list, to which `Ring.keep` adds.
* `ringStep_fifo` — a call does to the ring what it does to the queue, and answers the same.
* `touch_ring_fifo` — so every run of the ring is a run of the queue, at every position of
  head and tail, and what is stored are the newest events.
-/

namespace LuatosPc.Driver.Touch

/-- A call of one of the functions that manage the ring. -/
inductive RingAct
  | enqueueEvent (event : TpData)
  | dequeueEvent
  | getQueueCount
  deriving DecidableEq, Repr

/-- What such a call gives. -/
inductive RingAnswer
  | ret (r : Int)
  /-- 0 is returned, and the event is stored through the pointer. -/
  | event (ev : TpData)
  | count (n : Nat)
  deriving DecidableEq, Repr

/-- One call. -/
def ringStep (s : TpPcState) : RingAct → Option (TpPcState × RingAnswer)
  | .enqueueEvent event =>
    let r := s.enqueueEvent event
    some (r.1, .ret r.2)
  | .dequeueEvent =>
    match s.dequeueEvent with
    | (s, none) => some (s, .ret (-1))
    | (s, some ev) => some (s, .event ev)
  | .getQueueCount => some (s, .count s.getQueueCount)

/-- The ring after `luat_tp_pc_init`. -/
def ringMachine (touchMax : Nat) (conf : Conf) : Machine TpPcState RingAct RingAnswer :=
  ⟨(luatTpPcInit touchMax conf).tp, ringStep⟩

/-- A transition of the ring. -/
abbrev RingTrans := Transition TpPcState RingAct RingAnswer

/-! ## The queue -/

/-- One call, as it should be: on a list of events, the oldest first. -/
def fifoStep (cap : Nat) (l : List TpData) : RingAct → Option (List TpData × RingAnswer)
  | .enqueueEvent event => some (Ring.keep cap l event, .ret 0)
  | .dequeueEvent =>
    match l with
    | [] => some ([], .ret (-1))
    | ev :: l => some (l, .event ev)
  | .getQueueCount => some (l, .count l.length)

/-- The queue with room for `cap` events, which is empty at first. -/
def fifoMachine (cap : Nat) : Machine (List TpData) RingAct RingAnswer := ⟨[], fifoStep cap⟩

/-- A transition of the ring, as one of the queue. -/
def asFifo (e : RingTrans) : Transition (List TpData) RingAct RingAnswer :=
  ⟨e.src.queue, e.act, e.out, e.dst.queue⟩

/-- The event that a transition of the one or the other adds. -/
def enqueued {S : Type} (e : Transition S RingAct RingAnswer) : List TpData :=
  match e.act with
  | .enqueueEvent event => [event]
  | _ => []

/-! ## The ring is the queue -/

section

variable {touchMax : Nat} {conf : Conf} {s s' : TpPcState} {a : RingAct} {o : RingAnswer}
  {tr : List RingTrans}

/-- **One call** on the ring is the call on the queue. -/
theorem ringStep_fifo (h : Ready s) (hs : ringStep s a = some (s', o)) :
    Ready s' ∧ fifoStep 7 s.queue a = some (s'.queue, o) := by
  cases a with
  | enqueueEvent event =>
    obtain ⟨hret, hready, hqueue⟩ := h.enqueue_spec event
    simp only [ringStep, Option.some.injEq, Prod.mk.injEq] at hs
    obtain ⟨rfl, rfl⟩ := hs
    rw [fifoStep, hret, hqueue]
    exact ⟨hready, rfl⟩
  | dequeueEvent =>
    obtain ⟨hempty, hdeq⟩ | ⟨ev, t, hdeq, hready, hqueue, -⟩ := h.dequeue_spec
    · simp only [ringStep, hdeq, Option.some.injEq, Prod.mk.injEq] at hs
      obtain ⟨rfl, rfl⟩ := hs
      rw [hempty]
      exact ⟨h, rfl⟩
    · simp only [ringStep, hdeq, Option.some.injEq, Prod.mk.injEq] at hs
      obtain ⟨rfl, rfl⟩ := hs
      rw [hqueue]
      exact ⟨hready, rfl⟩
  | getQueueCount =>
    simp only [ringStep, Option.some.injEq, Prod.mk.injEq] at hs
    obtain ⟨rfl, rfl⟩ := hs
    rw [fifoStep, h.getQueueCount_eq]
    exact ⟨h, rfl⟩

/-- Every run of the ring is a run of the queue. -/
theorem ring_refines (h : Run (ringMachine touchMax conf) tr s) :
    Ready s ∧ Run (fifoMachine 7) (tr.map asFifo) s.queue := by
  induction h with
  | start =>
    refine ⟨ready_init touchMax conf, ?_⟩
    have hempty : (luatTpPcInit touchMax conf).tp.queue = [] :=
      (ready_init touchMax conf).queue_eq_nil_iff.2 rfl
    show Run (fifoMachine 7) [] (luatTpPcInit touchMax conf).tp.queue
    rw [hempty]
    exact .start
  | snoc _ hs ih =>
    obtain ⟨hready, hrun⟩ := ih
    obtain ⟨hready', hstep⟩ := ringStep_fifo hready hs
    rw [List.map_append]
    exact ⟨hready', hrun.snoc hstep⟩

end

/-- The queue holds the newest of the events that were added, and never more than there is
room for. -/
theorem fifo_newest {cap : Nat} (hcap : 0 < cap)
    {tr : List (Transition (List TpData) RingAct RingAnswer)} {l : List TpData}
    (h : Run (fifoMachine cap) tr l) : l <:+ tr.flatMap enqueued ∧ l.length ≤ cap := by
  induction h with
  | start => exact ⟨List.suffix_rfl, Nat.zero_le _⟩
  | @snoc tr l l' a o _ hs ih =>
    obtain ⟨hsuffix, hlen⟩ := ih
    rw [List.flatMap_append, List.flatMap_singleton]
    cases a with
    | enqueueEvent event =>
      cases hs
      exact ⟨Ring.keep_suffix hsuffix event, Ring.length_keep_le hcap hlen event⟩
    | dequeueEvent =>
      have hadds : enqueued (⟨l, .dequeueEvent, o, l'⟩ : Transition _ RingAct _) = [] := rfl
      rw [hadds, List.append_nil]
      cases l with
      | nil =>
        cases hs
        exact ⟨hsuffix, hlen⟩
      | cons ev l =>
        cases hs
        exact ⟨(List.suffix_cons ev _).trans hsuffix, Nat.le_of_succ_le hlen⟩
    | getQueueCount =>
      cases hs
      rw [enqueued, List.append_nil]
      exact ⟨hsuffix, hlen⟩

/-- **The ring of the touch panel** is a queue of seven events that loses its oldest one to a
new one.  After any calls since `luat_tp_pc_init` the indices are in the array, the count is
that of the stored events, and these are the newest ones; and the calls and their answers are
those of the queue. -/
theorem touch_ring_fifo {touchMax : Nat} {conf : Conf} {tr : List RingTrans} {s : TpPcState}
    (h : Run (ringMachine touchMax conf) tr s) :
    s.queueHead.toNat < 8 ∧ s.queueTail.toNat < 8 ∧ s.getQueueCount = s.queue.length ∧
      s.queue.length ≤ 7 ∧ s.queue <:+ tr.flatMap enqueued ∧
      Run (fifoMachine 7) (tr.map asFifo) s.queue := by
  obtain ⟨hready, hrun⟩ := ring_refines h
  obtain ⟨hsuffix, hlen⟩ := fifo_newest (by decide) hrun
  rw [List.flatMap_map] at hsuffix
  exact ⟨hready.head, hready.tail, hready.getQueueCount_eq, hlen, hsuffix, hrun⟩

/-- An event at some time. -/
def moveAt (timestamp : UInt32) : TpData := ⟨.move, 0, 5, 5, 1, timestamp⟩

/-- Eight events, one more than there is room for, and the oldest of those that are left. -/
def eightEvents : List RingAct :=
  (List.range 8).map (fun i => .enqueueEvent (moveAt (UInt32.ofNat i))) ++
    [.getQueueCount, .dequeueEvent]

theorem touch_ring_fifo_eight :
    (((ringMachine 10 panel).traceOf eightEvents).drop 8).map Transition.out =
        [.count 7, .event (moveAt 1)] ∧
      ((ringMachine 10 panel).stateOf eightEvents).queue <:+
        ((ringMachine 10 panel).traceOf eightEvents).flatMap enqueued := by
  obtain ⟨-, -, -, -, hsuffix, -⟩ := touch_ring_fifo
    (Machine.run_exec (show ((ringMachine 10 panel).exec _ eightEvents).isSome = true by decide))
  exact ⟨by decide, hsuffix⟩

end LuatosPc.Driver.Touch
