import Mathlib.Data.Multiset.Basic
import LuatosPc.Base.Fifo
import LuatosPc.Base.Ring

/-!
# Mailboxes of the IP stack

The mailboxes of `lwip/port/win32/sys_arch.c`: a ring of pointers under a critical section,
with a semaphore that counts the messages.  A thread that fetches first waits for the
semaphore and only then enters the critical section, so that other threads can come in
between.

* `SysMbox` — `struct lwip_mbox`, and the threads that have got through their wait.
* `sysMboxPost`, `sysMboxTrypost`, `takeMsg`, `step` — the functions of the source, one
  critical section or wait at a time.
* `Good` — the semaphore and the threads past it count the messages.
* `mbox_fifo` — over every interleaving, messages come out in the order they went in, none
  is lost or fetched twice, every thread past its wait finds a message, and the box is
  full or empty for a caller exactly when it should be.
-/

namespace LuatosPc
namespace Lwip
namespace Mbox

/-- `MAX_QUEUE_ENTRIES`. -/
def maxQueueEntries : Nat := 100

/-- A mailbox. -/
structure SysMbox (T α : Type) where
  /-- `q_mem`. -/
  qMem : Nat → α
  /-- Where the next message is put. -/
  head : Nat
  /-- Where the next message is taken. -/
  tail : Nat
  /-- The count of the semaphore. -/
  sem : Nat
  /-- The threads between `WaitForSingleObject` and `SYS_ARCH_PROTECT`. -/
  granted : Multiset T

/-- What a call comes back with. -/
inductive Out (α : Type)
  | none
  /-- `ERR_OK`. -/
  | ok
  /-- `ERR_MEM`. -/
  | full
  | fetched (msg : α)
  /-- `SYS_ARCH_TIMEOUT` or `SYS_MBOX_EMPTY`. -/
  | empty
  deriving DecidableEq

/-- A critical section, or the end of a wait. -/
inductive Op (T α : Type)
  /-- `sys_mbox_post`. -/
  | post (msg : α)
  /-- `sys_mbox_trypost`. -/
  | trypost (msg : α)
  /-- `sys_arch_mbox_fetch` or `sys_arch_mbox_tryfetch` gets the semaphore. -/
  | wait (t : T)
  /-- It does not get it in time. -/
  | timeout (t : T)
  /-- It takes its message. -/
  | take (t : T)
  deriving DecidableEq

variable {T α : Type}

/-- `sys_mbox_new`; `null` stands for what is in the places at first. -/
def sysMboxNew (null : α) : SysMbox T α := ⟨fun _ => null, 0, 0, 0, 0⟩

/-- The index after the given one. -/
def next (i : Nat) : Nat := if maxQueueEntries ≤ i + 1 then 0 else i + 1

/-- The message is written, the head moves on, and the semaphore is released. -/
def putMsg (q : SysMbox T α) (msg : α) : SysMbox T α :=
  { q with qMem := Function.update q.qMem q.head msg, head := next q.head, sem := q.sem + 1 }

/-- `sys_mbox_post`.  The process is aborted if the mailbox is full then, or the semaphore
at its maximum. -/
def sysMboxPost (q : SysMbox T α) (msg : α) : Option (SysMbox T α × Out α) :=
  if (putMsg q msg).head = q.tail ∨ maxQueueEntries ≤ q.sem then none
  else some (putMsg q msg, .none)

/-- `sys_mbox_trypost`. -/
def sysMboxTrypost (q : SysMbox T α) (msg : α) : Option (SysMbox T α × Out α) :=
  if next q.head = q.tail then some (q, .full)
  else if (putMsg q msg).head = q.tail ∨ maxQueueEntries ≤ q.sem then none
  else some (putMsg q msg, .ok)

section

variable [DecidableEq T]

/-- The critical section of a fetch. -/
def takeMsg (q : SysMbox T α) (t : T) : SysMbox T α × Out α :=
  ({ q with tail := next q.tail, granted := q.granted.erase t }, .fetched (q.qMem q.tail))

/-- One step of one thread. -/
def step (q : SysMbox T α) : Op T α → Option (SysMbox T α × Out α)
  | .post msg => sysMboxPost q msg
  | .trypost msg => sysMboxTrypost q msg
  | .wait t =>
    if q.sem = 0 then none else some ({ q with sem := q.sem - 1, granted := t ::ₘ q.granted }, .none)
  | .timeout _ => if q.sem = 0 then some (q, .empty) else none
  | .take t => if t ∈ q.granted then some (takeMsg q t) else none

/-- A mailbox under any threads. -/
def machine (T : Type) {α : Type} [DecidableEq T] (null : α) :
    Machine (SysMbox T α) (Op T α) (Out α) :=
  ⟨sysMboxNew null, step⟩

end

/-- A transition. -/
abbrev Trans (T α : Type) := Transition (SysMbox T α) (Op T α) (Out α)

/-- The messages in the mailbox, the oldest first. -/
def SysMbox.messages (q : SysMbox T α) : List α := Ring.stored q.qMem maxQueueEntries q.tail q.head

/-- The message that a transition puts in. -/
def posted (e : Trans T α) : List α :=
  match e.act, e.out with
  | .post msg, _ => [msg]
  | .trypost msg, .ok => [msg]
  | _, _ => []

/-- The message that a transition takes out. -/
def fetched (e : Trans T α) : List α :=
  match e.out with
  | .fetched msg => [msg]
  | _ => []

/-- The indices are in range; every message is counted by the semaphore or belongs to a
thread that has got through its wait. -/
structure Good (q : SysMbox T α) : Prop where
  head : q.head < maxQueueEntries
  tail : q.tail < maxQueueEntries
  count : q.sem + q.granted.card = q.messages.length

variable {q q' : SysMbox T α} {op : Op T α} {o : Out α} {msg : α} {t : T}

theorem next_eq {i : Nat} (h : i < maxQueueEntries) : next i = (i + 1) % maxQueueEntries := by
  rw [Ring.next_eq h, next]
  split <;> split <;> omega

theorem next_lt (i : Nat) : next i < maxQueueEntries := by
  unfold next maxQueueEntries
  split <;> omega

/-- The mailbox is full if the head is right before the tail. -/
theorem Good.next_head_eq_iff (hq : Good q) :
    next q.head = q.tail ↔ q.messages.length = maxQueueEntries - 1 := by
  rw [next_eq hq.head, SysMbox.messages, Ring.length_stored,
    Ring.count_eq_pred_iff hq.tail hq.head]

/-- A message more. -/
theorem Good.put (hq : Good q) (hfree : next q.head ≠ q.tail) (msg : α) :
    (putMsg q msg).messages = q.messages ++ [msg] ∧ Good (putMsg q msg) := by
  have hmsgs : (putMsg q msg).messages = q.messages ++ [msg] := by
    have hne : (q.head + 1) % maxQueueEntries ≠ q.tail := next_eq hq.head ▸ hfree
    simp only [SysMbox.messages, putMsg, next_eq hq.head]
    exact Ring.stored_push q.qMem msg hq.tail hq.head hne
  refine ⟨hmsgs, next_lt _, hq.tail, ?_⟩
  rw [hmsgs, List.length_append, List.length_singleton, ← hq.count]
  simp only [putMsg]
  omega

/-- The semaphore never comes to its maximum. -/
theorem Good.sem_lt (hq : Good q) : q.sem < maxQueueEntries := by
  have hcount := hq.count
  have hlt := Ring.count_lt hq.tail hq.head
  rw [SysMbox.messages, Ring.length_stored] at hcount
  omega

/-- `sys_mbox_post` puts its message in, or aborts because the mailbox is full. -/
theorem Good.post_eq (hq : Good q) (msg : α) :
    sysMboxPost q msg = if next q.head = q.tail then none else some (putMsg q msg, .none) := by
  simp [sysMboxPost, putMsg, Nat.not_le.2 hq.sem_lt]

/-- `sys_mbox_trypost` puts its message in, or refuses because the mailbox is full. -/
theorem Good.trypost_eq (hq : Good q) (msg : α) :
    sysMboxTrypost q msg =
      if next q.head = q.tail then some (q, .full) else some (putMsg q msg, .ok) := by
  unfold sysMboxTrypost
  split
  · rfl
  · rw [if_neg]
    exact not_or.2 ⟨by assumption, Nat.not_le.2 hq.sem_lt⟩

variable [DecidableEq T]

/-- A thread past its wait finds the oldest message. -/
theorem Good.take (hq : Good q) (ht : t ∈ q.granted) :
    q.messages = q.qMem q.tail :: (takeMsg q t).1.messages ∧ Good (takeMsg q t).1 := by
  have hcard := Multiset.card_pos_iff_exists_mem.2 ⟨t, ht⟩
  have hcount := hq.count
  have hne : q.tail ≠ q.head := by
    intro heq
    have hnil : q.messages = [] := (Ring.stored_eq_nil_iff q.qMem hq.tail).2 heq
    rw [hnil, List.length_nil] at hcount
    omega
  have hmsgs : q.messages = q.qMem q.tail :: (takeMsg q t).1.messages := by
    simp only [SysMbox.messages, takeMsg, next_eq hq.tail]
    exact Ring.stored_eq_cons q.qMem hq.tail hq.head hne
  refine ⟨hmsgs, hq.head, next_lt _, ?_⟩
  have hlen := congrArg List.length hmsgs
  rw [List.length_cons] at hlen
  simp only [takeMsg, Multiset.card_erase_of_mem ht, Nat.pred_eq_sub_one] at hlen ⊢
  omega

/-- **One step** takes from the front and puts to the back. -/
theorem step_fifo (hq : Good q) (hs : step q op = some (q', o)) :
    Good q' ∧ fetched ⟨q, op, o, q'⟩ ++ q'.messages = q.messages ++ posted ⟨q, op, o, q'⟩ := by
  cases op with
  | post msg =>
    rw [step, hq.post_eq] at hs
    split at hs
    · cases hs
    case isFalse hfree =>
      obtain ⟨rfl, rfl⟩ := Prod.mk.inj (Option.some.inj hs)
      obtain ⟨hmsgs, hgood⟩ := hq.put hfree msg
      exact ⟨hgood, hmsgs⟩
  | trypost msg =>
    rw [step, hq.trypost_eq] at hs
    split at hs
    case isTrue =>
      obtain ⟨rfl, rfl⟩ := Prod.mk.inj (Option.some.inj hs)
      exact ⟨hq, by simp [fetched, posted]⟩
    case isFalse hfree =>
      obtain ⟨rfl, rfl⟩ := Prod.mk.inj (Option.some.inj hs)
      obtain ⟨hmsgs, hgood⟩ := hq.put hfree msg
      exact ⟨hgood, hmsgs⟩
  | wait t =>
    simp only [step] at hs
    split at hs
    · cases hs
    case isFalse hsem =>
      obtain ⟨rfl, rfl⟩ := Prod.mk.inj (Option.some.inj hs)
      have hcount := hq.count
      refine ⟨⟨hq.head, hq.tail, ?_⟩, by simp [fetched, posted, SysMbox.messages]⟩
      rw [Multiset.card_cons]
      change q.sem - 1 + (q.granted.card + 1) = q.messages.length
      omega
  | timeout t =>
    simp only [step] at hs
    split at hs <;> cases hs
    exact ⟨hq, by simp [fetched, posted]⟩
  | take t =>
    simp only [step] at hs
    split at hs
    case isFalse => cases hs
    case isTrue ht =>
      obtain ⟨hmsgs, hgood⟩ := hq.take ht
      cases hs
      refine ⟨hgood, ?_⟩
      rw [hmsgs]
      simp [fetched, posted, takeMsg]

/-- **A mailbox is a queue.**  Over every interleaving of any threads, the messages fetched
and then those in the box are the messages put in, in order.  The semaphore and the
threads past their wait account for all messages; so each of these threads finds the
oldest one, a thread is told that the box is empty exactly if all messages are promised
to others, and a message is refused, or the process aborted, exactly if 99 are inside. -/
theorem mbox_fifo {null : α} {tr : List (Trans T α)} (h : Run (machine T null) tr q) :
    tr.flatMap fetched ++ q.messages = tr.flatMap posted ∧
    q.sem + q.granted.card = q.messages.length ∧
    (∀ t ∈ q.granted, ∃ q' msg, step q (.take t) = some (q', .fetched msg) ∧
      q.messages = msg :: q'.messages) ∧
    (∀ t, step q (.timeout t) = some (q, .empty) ↔ q.messages.length = q.granted.card) ∧
    ∀ msg, (step q (.post msg) = none ↔ q.messages.length = 99) ∧
      (step q (.trypost msg) = some (q, .full) ↔ q.messages.length = 99) := by
  have hnew : Good (machine T null).init := ⟨by simp [machine, sysMboxNew, maxQueueEntries],
    by simp [machine, sysMboxNew, maxQueueEntries], rfl⟩
  have hfifo : ∃ ys, (Good q ∧ q.messages = ys) ∧ tr.flatMap fetched ++ ys = tr.flatMap posted := by
    refine h.fifo (R := fun q xs => Good q ∧ q.messages = xs) ⟨hnew, rfl⟩ ?_
    rintro q a q' o xs ⟨hq, rfl⟩ hs
    obtain ⟨hq', hlaw⟩ := step_fifo hq hs
    exact ⟨_, ⟨hq', rfl⟩, hlaw⟩
  obtain ⟨_, ⟨hq, rfl⟩, hlaw⟩ := hfifo
  have hcount := hq.count
  refine ⟨hlaw, hcount, fun t ht => ?_, fun t => ?_, fun msg => ⟨?_, ?_⟩⟩
  · exact ⟨_, _, by simp only [step, ht, if_true]; rfl, (hq.take ht).1⟩
  · simp only [step]
    split
    case isTrue hsem => simp; omega
    case isFalse hsem => simp; omega
  · rw [step, hq.post_eq]
    have hfull := hq.next_head_eq_iff
    split <;> simp_all [maxQueueEntries]
  · rw [step, hq.trypost_eq]
    have hfull := hq.next_head_eq_iff
    split <;> simp_all [maxQueueEntries]

/-- Two threads wait, the one that got through second takes the first message, and a third
is told that there is none although one is still inside. -/
def overtaken : List (Op Nat Nat) :=
  [.post 7, .trypost 8, .wait 1, .wait 2, .take 2, .timeout 3]

theorem mbox_fifo_overtaken :
    ((machine Nat 0).traceOf overtaken).flatMap fetched = [7] ∧
    ((machine Nat 0).stateOf overtaken).messages = [8] ∧
    ∃ q' msg, step ((machine Nat 0).stateOf overtaken) (.take 1) = some (q', .fetched msg) ∧
      ((machine Nat 0).stateOf overtaken).messages = msg :: q'.messages := by
  have hexec : ((machine Nat 0).exec (machine Nat 0).init overtaken).isSome = true := by
    decide +kernel
  have hall := mbox_fifo (Machine.run_exec hexec)
  exact ⟨by decide +kernel, by decide +kernel, hall.2.2.1 1 (by decide +kernel)⟩

end Mbox
end Lwip
end LuatosPc
