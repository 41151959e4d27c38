import LuatosPc.Base.Ledger
import LuatosPc.Network.Datagrams
import LuatosPc.Network.Stream

/-!
# What arrives is announced

The owner of a socket learns from RX_NEW events how much there is to read, and reads it
with calls of its own.  The events of a slot are counted here against the data: each
chunk or datagram that is stored is announced once, with its length, and the sum of the
announcements is what has been read and what is still there to be read.

* `chunkLens`, `storedLens` — the lengths of what a transition stores in a slot.
* `rxNew_opEvents` — they are what the transition announces.
* `rx_announced` — the announcements of a TCP and of a UDP socket, from a state with
  nothing to read on.
-/

namespace LuatosPc
namespace Libuv

open Adapter

variable {β : Type}

/-- The length that an RX_NEW event of slot `s` announces. -/
def NwEvent.rxNew? (s : Slot) (ev : NwEvent) : Option Nat :=
  if ev.id = .socketRxNew ∧ ev.slot = s then some ev.param2 else none

/-- The length of the chunk that a transition puts into the buffer of slot `s`. -/
def chunkLens (s : Slot) (e : Trans β) : List Nat :=
  match e.act with
  | .onRecv s' (.data (b :: bs)) room _ =>
    if s' = s ∧ ((e.src.sockets s).recvBuff = none ∨ room = true) then [(b :: bs).length] else []
  | _ => []

/-- The lengths of datagrams. -/
def datagramLens (ds : List (UdpData β)) : List Nat := ds.map fun d => d.data.length

/-- The length of the chunk or the datagram that a transition stores in slot `s`. -/
def storedLens (s : Slot) (e : Trans β) : List Nat :=
  chunkLens s e ++ datagramLens (storedUdp s e)

/-- What is to be said about data for slot `s` can be posted. -/
structure PostOk (s : Slot) (e : Trans β) : Prop where
  tcp : ∀ r room posted, e.act = .onRecv s r room posted → posted = true
  udp : ∀ d room posted, e.act = .onRecvUdp s d room posted → posted = true

/-! ## The announcements of one step -/

theorem rxNew_eventFor (σ : Adapter β) (s s' : Slot) (posted : Bool) (id : EventId) (n : Nat) :
    (σ.eventFor s' posted id n).filterMap (NwEvent.rxNew? s) =
      if (id = .socketRxNew ∧ s' = s) ∧ posted = true then [n] else [] := by
  cases posted with
  | false => simp [eventFor]
  | true => by_cases hid : id = .socketRxNew ∧ s' = s <;> simp [eventFor, NwEvent.rxNew?, hid]

/-- Where it can be posted, a step announces what it stores. -/
theorem rxNew_opEvents {s : Slot} {e : Trans β} (h : PostOk s e) :
    (opEvents e.src e.act).filterMap (NwEvent.rxNew? s) = storedLens s e := by
  obtain ⟨σ, op, o, σ'⟩ := e
  unfold storedLens datagramLens
  cases op with
  | onConnect s' status readRet posted =>
    by_cases hst : status = 0 <;> simp [opEvents, chunkLens, storedUdp, rxNew_eventFor, hst]
  | udpConnectAsync s' readRet posted => simp [opEvents, chunkLens, storedUdp, rxNew_eventFor]
  | onShutdown s' posted =>
    simp only [opEvents, chunkLens, storedUdp]
    split <;> simp [rxNew_eventFor]
  | udpAsyncClose s' posted =>
    simp only [opEvents, chunkLens, storedUdp]
    split <;> simp [rxNew_eventFor]
  | onSent s' len status posted =>
    by_cases hst : status = 0 <;> simp [opEvents, chunkLens, storedUdp, rxNew_eventFor, hst]
  | onSentUdp s' len status posted =>
    by_cases hst : status = 0 <;> simp [opEvents, chunkLens, storedUdp, rxNew_eventFor, hst]
  | onRecv s' r room posted =>
    cases r with
    | eof =>
      simp only [opEvents, chunkLens, storedUdp]
      split <;> simp [rxNew_eventFor]
    | error =>
      simp only [opEvents, chunkLens, storedUdp]
      split <;> simp [rxNew_eventFor]
    | data bytes =>
      cases bytes with
      | nil => rfl
      | cons b bs =>
        by_cases hs : s' = s
        · subst hs
          obtain rfl : posted = true := h.tcp _ _ _ rfl
          by_cases hroom : (σ.sockets s').recvBuff = none ∨ room = true
          · simp [opEvents, chunkLens, storedUdp, rxNew_eventFor, hroom]
          · simp [opEvents, chunkLens, storedUdp, rxNew_eventFor, hroom]
        · simp only [opEvents, chunkLens, storedUdp, hs, false_and, if_false]
          split <;> simp [rxNew_eventFor, hs]
  | onRecvUdp s' d room posted =>
    cases d with
    | none => rfl
    | some d =>
      by_cases hs : s' = s
      · subst hs
        obtain rfl : posted = true := h.udp _ _ _ rfl
        by_cases hd : d.data = [] <;> cases room <;>
          simp [opEvents, chunkLens, storedUdp, rxNew_eventFor, hd]
      · simp only [opEvents, chunkLens, storedUdp, hs, false_and, if_false]
        split <;> simp [rxNew_eventFor, hs]
  | _ => rfl

/-- Where there is room, the chunk that a step brings is put into the buffer. -/
theorem sum_chunkLens {s : Slot} {e : Trans β} (h : RoomOk s e) :
    (chunkLens s e).sum = (e.act.bytesTo s).length := by
  obtain ⟨σ, op, o, σ'⟩ := e
  cases op with
  | onRecv s' r room posted =>
    cases r with
    | eof => simp [chunkLens, Op.bytesTo]
    | error => simp [chunkLens, Op.bytesTo]
    | data bytes =>
      cases bytes with
      | nil => by_cases hs : s' = s <;> simp [chunkLens, Op.bytesTo, hs]
      | cons b bs =>
        by_cases hs : s' = s
        · subst hs
          obtain rfl : room = true := h _ _ _ rfl
          simp [chunkLens, Op.bytesTo]
        · simp [chunkLens, Op.bytesTo, hs]
  | _ => simp [chunkLens, Op.bytesTo]

/-! ## The announcements of a socket -/

/-- What is stored are the chunks and the datagrams, in the order in which they come. -/
theorem storedLens_perm (s : Slot) (tr : List (Trans β)) :
    (tr.flatMap (storedLens s)).Perm
      (tr.flatMap (chunkLens s) ++ datagramLens (tr.flatMap (storedUdp s))) := by
  rw [datagramLens, List.map_flatMap]
  exact (List.flatMap_append_perm tr (chunkLens s) fun e => datagramLens (storedUdp s e)).symm

theorem sum_flatMap_chunkLens {s : Slot} {tr : List (Trans β)} (h : ∀ e ∈ tr, RoomOk s e) :
    (tr.flatMap (chunkLens s)).sum = (delivered s tr).length := by
  induction tr with
  | nil => rfl
  | cons e tr ih =>
    have hrest := ih fun e' he' => h e' (List.mem_cons_of_mem _ he')
    have hone := sum_chunkLens (h e List.mem_cons_self)
    simp only [delivered, List.flatMap_cons, List.sum_append, List.length_append] at hrest ⊢
    omega

/-- **What arrives is announced.**  Take any transition of a run, and what follows it as
long as the socket of slot `s` lives, where the reports can be posted.  The RX_NEW events
of the slot since then are, in this order, one for each chunk and each datagram stored,
with its length.

* If the socket is a TCP one that had nothing to read, and there is memory for what comes,
  their sum is the number of bytes read since and of those in the buffer (and in datagrams
  that came to the slot besides).
* If it is a UDP one with an empty list, the receives were answered with some datagrams,
  one each, and the events are as many, and announce as many bytes, as these and those in
  the list together (and chunks that came to the slot besides); without such chunks they
  are their lengths, one by one. -/
theorem rx_announced {tr : List (Trans β)} {σ : Adapter β} (h : Run (machine β) tr σ)
    {pre post : List (Trans β)} {c : Trans β} (he : tr = pre ++ c :: post) {s : Slot}
    (hpost : ∀ e ∈ post, PostOk s e) (hends : ∀ e ∈ post, ¬ Ends s e) :
    let told := (σ.events.drop c.dst.events.length).filterMap (NwEvent.rxNew? s)
    told = post.flatMap (storedLens s) ∧
      ((c.dst.sockets s).isTcp = true → (c.dst.sockets s).recvBuff = none →
        (c.dst.sockets s).recvSize = 0 → (∀ e ∈ post, RoomOk s e) →
        told.sum = (received s post).length + (σ.sockets s).recvSize +
          (datagramLens (post.flatMap (storedUdp s))).sum) ∧
      ((c.dst.sockets s).isTcp = false → (c.dst.sockets s).udpData = [] →
        ∃ firsts, List.Forall₂ (fun q d => q.2 = d.cut q.1) (post.flatMap (takenUdp s)) firsts ∧
          told.length = firsts.length + (σ.sockets s).udpData.length +
            (post.flatMap (chunkLens s)).length ∧
          told.sum = (datagramLens firsts).sum + (datagramLens (σ.sockets s).udpData).sum +
            (post.flatMap (chunkLens s)).sum ∧
          ((∀ e ∈ post, chunkLens s e = []) →
            told = datagramLens (firsts ++ (σ.sockets s).udpData))) := by
  have hpath : Path (machine β) c.dst post σ := h.path he
  have htold : (σ.events.drop c.dst.events.length).filterMap (NwEvent.rxNew? s) =
      post.flatMap (storedLens s) := by
    have hlog : σ.events = c.dst.events ++ post.flatMap fun e => opEvents e.src e.act :=
      hpath.log fun σ op σ' o hs => step_events hs
    rw [hlog, List.drop_left, List.filterMap_flatMap]
    exact List.flatMap_congr fun e hmem => rxNew_opEvents (hpost e hmem)
  have hsum := (storedLens_perm s post).sum_eq
  have hlen := (storedLens_perm s post).length_eq
  rw [List.sum_append] at hsum
  rw [List.length_append, datagramLens, List.length_map] at hlen
  refine ⟨htold, ?_, ?_⟩
  · intro htcp hbuff hsize hroom
    obtain ⟨ys, hys, hlaw⟩ : ∃ ys, Streams s σ ys ∧ post.flatMap (takenFrom s) ++ ys =
        [] ++ post.flatMap fun e => e.act.bytesTo s := by
      apply hpath.fifo (C := fun e => RoomOk s e ∧ ¬ Ends s e) _ ⟨htcp, hbuff, hsize⟩
      · intro t a t' o xs hxs hs hC
        exact step_stream hxs hs hC.1 hC.2
      · exact fun e hmem => ⟨hroom e hmem, hends e hmem⟩
    have hcount := congrArg List.length hlaw
    simp only [List.length_append, List.nil_append] at hcount
    rw [htold, hsum, sum_flatMap_chunkLens hroom, hys.holds.size_eq]
    simp only [received, delivered]
    omega
  · intro hudp hempty
    obtain ⟨-, firsts, hstored, htaken⟩ := path_datagrams hpath hudp hempty hends
    refine ⟨firsts, htaken, ?_, ?_, ?_⟩
    · rw [htold, hlen, hstored, List.length_append, Nat.add_comm]
    · rw [htold, hsum, hstored, datagramLens, List.map_append, List.sum_append, Nat.add_comm]
      rfl
    · intro hnone
      rw [htold, ← hstored, datagramLens, List.map_flatMap]
      refine List.flatMap_congr fun e hmem => ?_
      rw [storedLens, hnone e hmem, List.nil_append, datagramLens]

/-- Slot 0 gets two chunks, of which five bytes are read. -/
def announcedOps : List (Op UInt8) :=
  [.create true 0 false, .connect 0 0xFAFB 0, .onConnect 0 0 0 true,
    .onRecv 0 (.data [1, 2, 3, 4]) true true, .onRecv 0 (.data [5, 6]) true true,
    .receive 0 0xFAFB true 5]

theorem rx_announced_chunks :
    ((machine UInt8).stateOf announcedOps).events.filterMap (NwEvent.rxNew? 0) = [4, 2] ∧
      ([4, 2] : List Nat).sum =
        (received 0 (((machine UInt8).traceOf announcedOps).drop 1)).length +
          (((machine UInt8).stateOf announcedOps).sockets 0).recvSize := by
  have hexec : ((machine UInt8).exec (machine UInt8).init announcedOps).isSome = true := by decide
  have h0 : 0 < ((machine UInt8).traceOf announcedOps).length := by decide
  have hrun := Machine.run_exec hexec
  refine ⟨by decide, ?_⟩
  have hroom : ∀ e ∈ ((machine UInt8).traceOf announcedOps).drop 1, RoomOk 0 e := by
    intro e he r room posted hact
    have hmem := Machine.act_mem_of_mem_drop he
    rw [hact] at hmem
    simp only [announcedOps, List.drop, List.mem_cons, Op.onRecv.injEq, reduceCtorEq,
      List.not_mem_nil, or_false, false_or] at hmem
    rcases hmem with h | h <;> exact h.2.2.1
  have hlaw := rx_announced hrun (Machine.traceOf_split h0) (s := 0) ?_ ?_
  · have htcp := hlaw.2.1 rfl rfl rfl hroom
    have htold : (((machine UInt8).stateOf announcedOps).events.drop
        ((machine UInt8).traceOf announcedOps)[0].dst.events.length).filterMap
          (NwEvent.rxNew? 0) = [4, 2] := rfl
    have hstray : (((machine UInt8).traceOf announcedOps).drop 1).flatMap (storedUdp 0) = [] := by
      decide
    rw [htold, hstray] at htcp
    exact htcp
  · intro e he
    have hmem := Machine.act_mem_of_mem_drop he
    constructor
    · intro r room posted hact
      rw [hact] at hmem
      simp only [announcedOps, List.drop, List.mem_cons, Op.onRecv.injEq, reduceCtorEq,
        List.not_mem_nil, or_false, false_or] at hmem
      rcases hmem with h | h <;> exact h.2.2.2
    · intro d room posted hact
      rw [hact] at hmem
      simp [announcedOps] at hmem
  · intro e he hends
    have hend := hends.mayEnd (hrun.step_of_mem (List.mem_of_mem_drop he))
    have hplain : ∀ op ∈ announcedOps.drop 1, op.mayEnd = false := by decide
    rw [hplain _ (Machine.act_mem_of_mem_drop he)] at hend
    exact absurd hend Bool.false_ne_true

end Libuv
end LuatosPc
