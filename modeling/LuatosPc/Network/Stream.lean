import LuatosPc.Base.Fifo
import LuatosPc.Network.Inbox

/-!
# The byte stream of a TCP socket

`on_recv` appends to `recv_buff` and `libuv_socket_receive` takes from its front.
Each of them has branches of its own for an empty buffer, and the latter also for
reads that empty it, that do not, and that ask for nothing.

* `UvConn.Holds` — the buffer holds exactly these bytes.
* `receive_of_buffered`, `query_of_buffered` — what a receive hands out, and what the
  size query says.
* `Ends` — the socket's time in its slot is over; `RoomOk` — the buffer can grow.
* `step_stream` — one step takes from the front what it hands out and adds behind
  what it brings; `tcp_stream_fidelity` — so does the life of a socket.
-/

namespace LuatosPc
namespace Libuv

open Adapter

variable {β : Type}

/-- The buffer of a slot holds these bytes. -/
abbrev UvConn.Holds (c : UvConn β) (xs : List β) : Prop := Buffered c.recvBuff c.recvSize xs

namespace UvConn.Holds

variable {c : UvConn β} {xs : List β}

theorem unread_eq (h : c.Holds xs) : c.unread = xs := by
  rw [UvConn.unread, h.getD_buff, h.size_eq, List.take_length]

/-- The fields for received data decide. -/
theorem of_rx {c' : UvConn β} (h : c.Holds xs) (heq : c'.rx = c.rx) : c'.Holds xs :=
  ⟨(congrArg Rx.recvBuff heq).trans h.buff_eq, (congrArg Rx.recvSize heq).trans h.size_eq⟩

/-- Taking bytes off the front. -/
theorem consume (h : c.Holds xs) (n : Nat) : (c.consume n).Holds (xs.drop n) := by
  have hlen : (xs.drop n).length = c.recvSize - n := by
    rw [h.size_eq, List.length_drop]
  refine ⟨?_, hlen.symm⟩
  simp only [UvConn.consume, h.getD_buff, ← hlen, List.take_length, List.length_eq_zero_iff]

/-- Nothing is taken from an empty buffer. -/
theorem consume_zero (h : c.Holds []) : c.consume 0 = c := by
  have hbuff : c.recvBuff = none := h.buff_eq
  have hsize : c.recvSize = 0 := h.size_eq
  cases c
  simp_all [UvConn.consume]

end UvConn.Holds

/-! ## What a receive hands out -/

theorem toCInt_of_lt {n : Nat} (h : n < 2 ^ 31) : toCInt n = n := by
  unfold toCInt
  rw [Int.bmod_eq_of_le] <;> omega

section

variable {σ : Adapter β} {s : Slot} {xs : List β} {id : Int} {tag : UInt64}

/-- **A receive** with a buffer for `len` bytes hands out the first `len` bytes, or all
there are. -/
theorem receive_of_buffered (h : (σ.sockets s).Holds xs) (htcp : (σ.sockets s).isTcp = true)
    (hcheck : σ.checkSocketId id tag = some s) (len : UInt32) :
    σ.libuvSocketReceive id tag true len =
      some (σ.modify s fun c => c.consume (min len.toNat xs.length),
        ⟨toCInt (min len.toNat xs.length), xs.take len.toNat, none⟩) := by
  have hbytes : (((σ.sockets s).recvBuff.getD []).take (min len.toNat xs.length)) =
      xs.take len.toNat := by
    rw [h.getD_buff, List.take_eq_take_iff]
    omega
  have hmin : (if len.toNat > xs.length then xs.length else len.toNat) = min len.toNat xs.length := by
    split <;> omega
  simp only [libuvSocketReceive, hcheck, htcp, if_true, receiveTcp, h.size_eq, hmin, hbytes]
  rw [if_neg (by simp)]
  split
  · -- there is nothing, and nothing changes
    rename_i hnone
    obtain rfl : xs = [] := List.length_eq_zero_iff.1 hnone.1
    have hzero : toCInt 0 = 0 := toCInt_of_lt (by omega)
    simp [Adapter.modify, h.consume_zero, hzero]
  · split
    · rename_i h0
      simp [Adapter.modify, UvConn.consume, h.size_eq, h0]
    · rename_i h0
      simp [Adapter.modify, UvConn.consume, h.size_eq, h0]

/-- **The size query** says how many bytes there are, and changes nothing. -/
theorem query_of_buffered (h : (σ.sockets s).Holds xs) (htcp : (σ.sockets s).isTcp = true)
    (hcheck : σ.checkSocketId id tag = some s) (len : UInt32) :
    σ.libuvSocketReceive id tag false len = some (σ, ⟨toCInt xs.length, [], none⟩) := by
  simp [libuvSocketReceive, hcheck, htcp, receiveTcp, h.size_eq]

end

/-! ## What a step does to the stream -/

/-- The bytes a call of `libuv_socket_receive` on slot `s` hands out. -/
def takenFrom (s : Slot) (e : Trans β) : List β :=
  match e.act, e.out with
  | .receive id _ _ _, .received r => if slotOf id = some s then r.bytes else []
  | _, _ => []

/-- The bytes handed out from slot `s` in the course of the transitions. -/
def received (s : Slot) (tr : List (Trans β)) : List β := tr.flatMap (takenFrom s)

/-- The socket in slot `s` is no more: the slot is handed out anew, or cleaned. -/
def Ends (s : Slot) (e : Trans β) : Prop :=
  (∃ t, HandsOut e s t) ∨ ∃ list, e.act = .clean list ∧ Cleans e.src s list

/-- Is the action one that can end a socket? -/
def Op.mayEnd : Op β → Bool
  | .create .. | .clean _ => true
  | _ => false

/-- Only create and clean end a socket. -/
theorem Ends.mayEnd {s : Slot} {e : Trans β} (h : Ends s e)
    (hstep : step e.src e.act = some (e.dst, e.out)) : e.act.mayEnd = true := by
  rcases h with ⟨t, ht⟩ | ⟨list, hact, -⟩
  · have hcreate := (handsOut_step hstep ht).1
    cases hop : e.act with
    | create => rfl
    | _ =>
      rw [hop] at hcreate
      exact absurd hcreate Bool.false_ne_true
  · rw [hact]
    rfl

/-- Data for slot `s` finds room on the heap. -/
def RoomOk (s : Slot) (e : Trans β) : Prop :=
  ∀ r room posted, e.act = .onRecv s r room posted → room = true

/-- An action without traffic brings nothing. -/
theorem bytesTo_of_noTraffic {σ : Adapter β} {s : Slot} {op : Op β} (h : NoTraffic σ s op) :
    op.bytesTo s = [] := by
  unfold Op.bytesTo
  split
  · rename_i s' bytes room posted
    split
    · rename_i hs
      cases bytes with
      | nil => rfl
      | cons b bs => exact absurd hs h
    · rfl
  · rfl

/-- An action without traffic takes nothing. -/
theorem takenFrom_of_noTraffic {σ σ' : Adapter β} {s : Slot} {op : Op β} {o : Answer β}
    (hstep : step σ op = some (σ', o)) (h : NoTraffic σ s op) :
    takenFrom s ⟨σ, op, o, σ'⟩ = [] := by
  unfold takenFrom
  split
  · rename_i id tag buf len r hact hout
    dsimp only at hact hout
    subst hact hout
    split
    · rename_i hid
      simp only [step, Option.map_eq_some_iff, Prod.mk.injEq, Answer.received.injEq] at hstep
      obtain ⟨⟨τ, r'⟩, hrec, -, rfl⟩ := hstep
      cases buf with
      | false => exact (receive_null_eq hrec).2
      | true =>
        -- were it accepted, it would be traffic of the slot it names
        have hne : ∀ s', σ.checkSocketId id tag ≠ some s' := by
          intro s' hcheck
          have hs' := (checkSocketId_eq_some.1 hcheck).1
          rw [hid, Option.some.injEq] at hs'
          exact h (hs' ▸ hcheck)
        obtain ⟨-, hnil, -⟩ | ⟨s', n, hcheck, -⟩ | ⟨s', d, ds, n, hcheck, -⟩ :=
          libuvSocketReceive_cases hrec
        · exact hnil
        · exact absurd hcheck (hne s')
        · exact absurd hcheck (hne s')
    · rfl
  · rfl

/-- **`on_recv`** puts the chunk behind what there is. -/
theorem UvConn.Holds.onRecv {σ : Adapter β} {s : Slot} {xs : List β}
    (h : (σ.sockets s).Holds xs) (b : β) (bs : List β) (posted : Bool) :
    ((σ.onRecv s (.data (b :: bs)) true posted).sockets s).Holds (xs ++ b :: bs) := by
  have hbuff := h.buff_eq
  by_cases hnil : xs = []
  · subst hnil
    rw [if_pos rfl] at hbuff
    constructor <;> simp [Adapter.onRecv, hbuff, modify_sockets]
  · rw [if_neg hnil] at hbuff
    constructor <;> simp [Adapter.onRecv, hbuff, modify_sockets, h.size_eq]

/-- A datagram is kept apart from the stream. -/
theorem UvConn.Holds.onRecvUdp {σ : Adapter β} {s : Slot} {xs : List β}
    (h : (σ.sockets s).Holds xs) (d : UdpData β) (room posted : Bool) :
    ((σ.onRecvUdp s (some d) room posted).sockets s).Holds xs := by
  simp only [Adapter.onRecvUdp]
  split
  · exact h
  · split
    · rw [cbToNwTask_sockets, modify_sockets, if_pos rfl]
      exact ⟨h.buff_eq, h.size_eq⟩
    · exact h

/-- Slot `s` is a TCP socket with these bytes in its buffer. -/
structure Streams (s : Slot) (σ : Adapter β) (xs : List β) : Prop where
  isTcp : (σ.sockets s).isTcp = true
  holds : (σ.sockets s).Holds xs

/-- **One step** takes off the front of the stream what it hands out, and puts behind
it what it brings. -/
theorem step_stream {σ σ' : Adapter β} {op : Op β} {o : Answer β} {s : Slot} {xs : List β}
    (hs : Streams s σ xs) (h : step σ op = some (σ', o)) (hroom : RoomOk s ⟨σ, op, o, σ'⟩)
    (hend : ¬ Ends s ⟨σ, op, o, σ'⟩) :
    ∃ ys, Streams s σ' ys ∧ takenFrom s ⟨σ, op, o, σ'⟩ ++ ys = xs ++ op.bytesTo s := by
  have htcp : (σ'.sockets s).isTcp = true := by
    rw [step_isTcp h fun ho => hend (Or.inl ho)]
    exact hs.isTcp
  by_cases hq : NoTraffic σ s op
  · refine ⟨xs, ⟨htcp, hs.holds.of_rx (step_rx_of_noTraffic h hq)⟩, ?_⟩
    rw [takenFrom_of_noTraffic h hq, bytesTo_of_noTraffic hq, List.append_nil, List.nil_append]
  obtain ⟨b, bs, room, posted, rfl⟩ | ⟨d, room, posted, rfl⟩ | ⟨id, tag, len, rfl, hcheck⟩ |
    ⟨list, rfl, hclean⟩ := traffic_cases hq
  · -- a chunk arrives
    obtain rfl : room = true := hroom _ _ _ rfl
    obtain ⟨-, rfl, rfl⟩ := step_onRecv_eq_some h
    refine ⟨xs ++ b :: bs, ⟨htcp, ?_⟩, by simp [takenFrom, Op.bytesTo]⟩
    exact hs.holds.onRecv b bs posted
  · -- a datagram goes to a list of its own
    obtain ⟨-, rfl, rfl⟩ := step_onRecvUdp_eq_some h
    refine ⟨xs, ⟨htcp, ?_⟩, by simp [takenFrom, Op.bytesTo]⟩
    exact hs.holds.onRecvUdp d room posted
  · -- a receive
    simp only [step, receive_of_buffered hs.holds hs.isTcp hcheck, Option.map_some,
      Option.some.injEq, Prod.mk.injEq] at h
    obtain ⟨rfl, rfl⟩ := h
    have hid : slotOf id = some s := (checkSocketId_eq_some.1 hcheck).1
    refine ⟨xs.drop (min len.toNat xs.length), ⟨htcp, ?_⟩, ?_⟩
    · rw [modify_sockets, if_pos rfl]
      exact hs.holds.consume _
    · have hmin : xs.drop (min len.toNat xs.length) = xs.drop len.toNat := by
        rw [List.drop_eq_drop_iff]
        omega
      simp [takenFrom, Op.bytesTo, hid, hmin]
  · exact absurd (Or.inr ⟨list, rfl, hclean⟩) hend

/-! ## The life of a socket -/

/-- **TCP byte-stream fidelity.**  From a transition that leaves slot `s` to a TCP socket
with an empty buffer (its create, say), and until that socket is no more, what receives
have handed out followed by what is in the buffer is what `on_recv` has brought; and the
buffer answers as the bytes in it say. -/
theorem tcp_stream_fidelity {tr : List (Trans β)} {σ : Adapter β} (h : Run (machine β) tr σ)
    {pre post : List (Trans β)} {c : Trans β} (he : tr = pre ++ c :: post) {s : Slot}
    (htcp : (c.dst.sockets s).isTcp = true) (hbuff : (c.dst.sockets s).recvBuff = none)
    (hsize : (c.dst.sockets s).recvSize = 0) (hroom : ∀ e ∈ post, RoomOk s e)
    (hends : ∀ e ∈ post, ¬ Ends s e) :
    received s post ++ (σ.sockets s).unread = delivered s post ∧
      (σ.sockets s).unread.length = (σ.sockets s).recvSize ∧
      ((σ.sockets s).recvBuff = none ↔ (σ.sockets s).recvSize = 0) ∧
      ∀ id t, σ.checkSocketId id t = some s → ∀ len,
        (∃ σ' r, σ.libuvSocketReceive id t true len = some (σ', r) ∧
          r.bytes = (σ.sockets s).unread.take len.toNat ∧
          r.bytes.length = min len.toNat (σ.sockets s).recvSize ∧
          r.ret = toCInt r.bytes.length ∧
          ((σ.sockets s).recvSize < 2 ^ 31 → r.ret = min len.toNat (σ.sockets s).recvSize)) ∧
        (∃ r, σ.libuvSocketReceive id t false len = some (σ, r) ∧
          r.bytes = [] ∧ r.ret = toCInt (σ.sockets s).recvSize ∧
          ((σ.sockets s).recvSize < 2 ^ 31 → r.ret = (σ.sockets s).recvSize)) := by
  have hfirst : Streams s c.dst [] := ⟨htcp, hbuff, hsize⟩
  have hfifo : ∃ ys, Streams s σ ys ∧ post.flatMap (takenFrom s) ++ ys =
      [] ++ post.flatMap fun e => e.act.bytesTo s := by
    apply (h.path he).fifo (C := fun e => RoomOk s e ∧ ¬ Ends s e) _ hfirst
    · intro t a t' o xs hxs hs hC
      exact step_stream hxs hs hC.1 hC.2
    · intro e hmem
      exact ⟨hroom e hmem, hends e hmem⟩
  obtain ⟨ys, hys, hlaw⟩ := hfifo
  have hunread := hys.holds.unread_eq
  have hlen := hys.holds.size_eq
  refine ⟨?_, ?_, hys.holds.buff_eq_none_iff, ?_⟩
  · rw [hunread]
    exact hlaw
  · rw [hunread, hlen]
  · intro id t hcheck len
    refine ⟨⟨_, _, receive_of_buffered hys.holds hys.isTcp hcheck len, ?_⟩,
      ⟨_, query_of_buffered hys.holds hys.isTcp hcheck len, ?_⟩⟩
    · refine ⟨by rw [hunread], by rw [List.length_take, hlen], by rw [List.length_take], ?_⟩
      intro hsmall
      rw [hlen] at hsmall ⊢
      rw [toCInt_of_lt (by omega)]
    · refine ⟨rfl, by rw [hlen], ?_⟩
      intro hsmall
      rw [hlen] at hsmall ⊢
      rw [toCInt_of_lt hsmall]

/-- Slot 0 reads a chunk in two pieces, with a read of nothing, a size query and
another chunk in between. -/
def streamOps : List (Op UInt8) :=
  [.create true 0 false, .connect 0 0xFAFB 0, .onConnect 0 0 0 true,
    .onRecv 0 (.data [1, 2, 3]) true true, .receive 0 0xFAFB true 2, .receive 0 0xFAFB true 0,
    .onRecv 0 (.data [4]) true true, .receive 0 0xFAFB false 0, .receive 0 0xFAFB true 16,
    .onRecv 0 (.data [5]) true true]

theorem tcp_stream_fidelity_pieces :
    received 0 (((machine UInt8).traceOf streamOps).drop 1) = [1, 2, 3, 4] ∧
      received 0 (((machine UInt8).traceOf streamOps).drop 1) ++
        (((machine UInt8).stateOf streamOps).sockets 0).unread =
          delivered 0 (((machine UInt8).traceOf streamOps).drop 1) := by
  have hexec : ((machine UInt8).exec (machine UInt8).init streamOps).isSome = true := by decide
  have h0 : 0 < ((machine UInt8).traceOf streamOps).length := by decide
  have hrun := Machine.run_exec hexec
  refine ⟨by decide +kernel, ?_⟩
  refine (tcp_stream_fidelity hrun (Machine.traceOf_split h0) (s := 0) ?_ ?_ ?_ ?_ ?_).1
  · rfl
  · rfl
  · rfl
  · intro e he r room posted hact
    have hmem := Machine.act_mem_of_mem_drop he
    rw [hact] at hmem
    simp only [streamOps, List.drop, List.mem_cons, Op.onRecv.injEq, reduceCtorEq, List.not_mem_nil,
      or_false, false_or] at hmem
    rcases hmem with h | h | h <;> exact h.2.2.1
  · intro e he hends
    have hend := hends.mayEnd (hrun.step_of_mem (List.mem_of_mem_drop he))
    have hplain : ∀ op ∈ streamOps.drop 1, op.mayEnd = false := by decide
    rw [hplain _ (Machine.act_mem_of_mem_drop he)] at hend
    exact absurd hend Bool.false_ne_true

end Libuv
end LuatosPc
