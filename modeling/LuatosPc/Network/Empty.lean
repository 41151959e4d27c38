import LuatosPc.Network.Stream

/-!
# A receive when there is nothing to read

The two halves of `libuv_socket_receive` look for data in different places: the TCP half
compares `recv_size` with 0, the UDP half asks for the head of a list.

* `UvConn.Tidy` — a buffer of no bytes is no buffer; `run_tidy` — so it is in every run.
* `empty_receive_iff` — a receive from a socket that has nothing to read returns 0 and
  changes nothing, if and only if it is a TCP socket, or the size is asked for, or nothing
  is asked for.  Otherwise it follows a NULL pointer.
-/

namespace LuatosPc
namespace Libuv

open Adapter

variable {β : Type}

/-- A buffer of no bytes is no buffer. -/
def UvConn.Tidy (c : UvConn β) : Prop := c.recvSize = 0 → c.recvBuff = none

/-- The socket has nothing to read. -/
def UvConn.Empty (c : UvConn β) : Prop := if c.isTcp then c.recvSize = 0 else c.udpData = []

/-! ## No buffer for nothing -/

theorem UvConn.Tidy.of_rx {c c' : UvConn β} (h : c.Tidy) (heq : c'.rx = c.rx) : c'.Tidy := by
  intro hsize
  have hsize' : c'.recvSize = c.recvSize := congrArg Rx.recvSize heq
  have hbuff : c'.recvBuff = c.recvBuff := congrArg Rx.recvBuff heq
  rw [hbuff]
  exact h (hsize'.symm.trans hsize)

theorem UvConn.tidy_consume (c : UvConn β) (n : Nat) : (c.consume n).Tidy := by
  intro hsize
  have hzero : c.recvSize - n = 0 := hsize
  simp [UvConn.consume, hzero]

theorem tidy_modify {σ : Adapter β} {s s' : Slot} {f : UvConn β → UvConn β}
    (h : (σ.sockets s').Tidy) (hf : (f (σ.sockets s')).Tidy) :
    ((σ.modify s f).sockets s').Tidy := by
  rw [modify_sockets]
  split
  · rename_i heq
    subst heq
    exact hf
  · exact h

theorem tidy_clean (list : List Int) {σ : Adapter β} {s : Slot} (h : (σ.sockets s).Tidy) :
    ((σ.libuvSocketClean list).sockets s).Tidy := by
  induction list generalizing σ with
  | nil => exact h
  | cons id list ih =>
    refine ih (σ := σ.cleanOne id) ?_
    unfold cleanOne
    split
    · exact h
    · split
      · exact tidy_modify h fun _ => rfl
      · exact h

theorem tidy_onRecv {σ : Adapter β} {s s' : Slot} (b : β) (bs : List β) (room posted : Bool)
    (h : (σ.sockets s').Tidy) :
    ((σ.onRecv s (.data (b :: bs)) room posted).sockets s').Tidy := by
  simp only [onRecv]
  split
  · rw [cbToNwTask_sockets]
    refine tidy_modify h fun hsize => ?_
    exact absurd hsize (by simp)
  · split
    · rw [cbToNwTask_sockets]
      refine tidy_modify h fun hsize => ?_
      exact absurd hsize (by simp)
    · rw [cbToNwTask_sockets]
      exact h

/-- **One step.** -/
theorem step_tidy {σ σ' : Adapter β} {op : Op β} {o : Answer β} {s : Slot}
    (h : (σ.sockets s).Tidy) (hs : step σ op = some (σ', o)) : (σ'.sockets s).Tidy := by
  by_cases hq : NoTraffic σ s op
  · exact h.of_rx (step_rx_of_noTraffic hs hq)
  obtain ⟨b, bs, room, posted, rfl⟩ | ⟨d, room, posted, rfl⟩ | ⟨id, tag, len, rfl, -⟩ |
    ⟨list, rfl, -⟩ := traffic_cases hq
  · obtain ⟨-, rfl, -⟩ := step_onRecv_eq_some hs
    exact tidy_onRecv b bs room posted h
  · -- a datagram goes to a list of its own
    obtain ⟨-, rfl, -⟩ := step_onRecvUdp_eq_some hs
    simp only [onRecvUdp]
    split
    · exact h
    · split
      · rw [cbToNwTask_sockets]
        exact tidy_modify h h
      · exact h
  · simp only [step, Option.map_eq_some_iff, Prod.mk.injEq] at hs
    obtain ⟨⟨τ, r⟩, hr, rfl, -⟩ := hs
    obtain ⟨rfl, -⟩ | ⟨s₁, n, -, -, -, -, rfl⟩ | ⟨s₁, d, ds, n, -, -, -, -, rfl⟩ :=
      libuvSocketReceive_cases hr
    · exact h
    · show ((σ.modify s₁ fun c => c.consume n).sockets s).Tidy
      exact tidy_modify h (UvConn.tidy_consume _ n)
    · show ((σ.modify s₁ fun c => { c with udpData := ds }).sockets s).Tidy
      exact tidy_modify h h
  · cases hs
    exact tidy_clean list h

/-- **In every run** a buffer of no bytes is no buffer. -/
theorem run_tidy {tr : List (Trans β)} {σ : Adapter β} (h : Run (machine β) tr σ) (s : Slot) :
    (σ.sockets s).Tidy := by
  induction h with
  | start => exact fun _ => rfl
  | snoc _ hs ih => exact step_tidy ih hs

/-! ## Nothing to read -/

section

variable {σ : Adapter β} {s : Slot}

/-- The TCP half. -/
theorem receiveTcp_empty (htidy : (σ.sockets s).Tidy) (hempty : (σ.sockets s).recvSize = 0)
    (buf : Bool) (len : UInt32) : σ.receiveTcp s buf len = (σ, ⟨0, [], none⟩) := by
  have hzero : toCInt 0 = 0 := rfl
  have hsame : (σ.modify s fun c => { c with recvBuff := none, recvSize := 0 }) = σ := by
    have hconn : ({ σ.sockets s with recvBuff := none, recvSize := 0 } : UvConn β) =
        σ.sockets s := by
      rw [← htidy hempty, ← hempty]
    rw [Adapter.modify, hconn, Function.update_eq_self]
  unfold receiveTcp
  dsimp only
  rw [hempty, hzero]
  split
  · rfl
  · split
    · rfl
    · -- a buffer for nothing
      rename_i hlen
      have hn : (if len.toNat > 0 then 0 else len.toNat) = 0 := by
        split <;> omega
      rw [hn, if_pos rfl, hsame, List.take_zero, hzero]

/-- The UDP half. -/
theorem receiveUdp_empty (hempty : (σ.sockets s).udpData = []) (buf : Bool) (len : UInt32) :
    σ.receiveUdp s buf len =
      if buf = false ∨ len.toNat = 0 then some (σ, ⟨0, [], none⟩) else none := by
  unfold receiveUdp
  cases buf with
  | false => simp [hempty]
  | true => simp [hempty]

end

/-- **A receive from a socket that has nothing to read** returns 0 and changes nothing if
and only if it is a TCP socket, or there is no buffer, or nothing is asked for. -/
theorem empty_receive_iff {tr : List (Trans β)} {σ : Adapter β} (h : Run (machine β) tr σ)
    {id : Int} {tag : UInt64} {s : Slot} (hcheck : σ.checkSocketId id tag = some s)
    (hempty : (σ.sockets s).Empty) (buf : Bool) (len : UInt32) :
    step σ (.receive id tag buf len) = some (σ, .received ⟨0, [], none⟩) ↔
      (σ.sockets s).isTcp = true ∨ buf = false ∨ len = 0 := by
  have hlen : len = 0 ↔ len.toNat = 0 := UInt32.toNat_inj.symm
  cases htcp : (σ.sockets s).isTcp with
  | true =>
    simp only [UvConn.Empty, htcp, if_true] at hempty
    simp [step, libuvSocketReceive, hcheck, htcp, receiveTcp_empty (run_tidy h s) hempty]
  | false =>
    simp only [UvConn.Empty, htcp, Bool.false_eq_true, if_false] at hempty
    simp only [step, libuvSocketReceive, hcheck, htcp, receiveUdp_empty hempty]
    rw [hlen]
    by_cases hnone : buf = false ∨ len.toNat = 0
    · simp [hnone]
    · simp [hnone]

/-- Slot 0 gets two bytes and reads them. -/
def drainedOps (isTcp : Bool) : List (Op UInt8) :=
  [.create isTcp 0 false, .connect 0 0xFAFB 0,
    if isTcp then .onConnect 0 0 0 true else .udpConnectAsync 0 0 true,
    if isTcp then .onRecv 0 (.data [1, 2]) true true
      else .onRecvUdp 0 (some ⟨⟨0x7F000001, 53⟩, [1, 2]⟩) true true,
    .receive 0 0xFAFB true 16]

theorem empty_receive_tcp :
    ((machine UInt8).stateOf (drainedOps true)).checkSocketId 0 0xFAFB = some 0 ∧
      step ((machine UInt8).stateOf (drainedOps true)) (.receive 0 0xFAFB true 16) =
        some ((machine UInt8).stateOf (drainedOps true), .received ⟨0, [], none⟩) := by
  have hrun : Run (machine UInt8) ((machine UInt8).traceOf (drainedOps true))
      ((machine UInt8).stateOf (drainedOps true)) := Machine.run_exec (by decide +kernel)
  have hcheck : ((machine UInt8).stateOf (drainedOps true)).checkSocketId 0 0xFAFB = some 0 := by
    decide +kernel
  have htcp : (((machine UInt8).stateOf (drainedOps true)).sockets 0).isTcp = true := by
    decide +kernel
  have hempty : (((machine UInt8).stateOf (drainedOps true)).sockets 0).Empty := by
    rw [UvConn.Empty, if_pos htcp]
    decide +kernel
  exact ⟨hcheck, (empty_receive_iff hrun hcheck hempty true 16).2 (Or.inl htcp)⟩

/-- The same calls on a UDP socket end with a NULL pointer being followed. -/
theorem empty_receive_follows_null :
    Run (machine UInt8) ((machine UInt8).traceOf (drainedOps false))
      ((machine UInt8).stateOf (drainedOps false)) ∧
    ((machine UInt8).traceOf (drainedOps false)).map Transition.out =
      [.created 0 (some 0xFAFB), .code 0, .nothing, .nothing,
        .received ⟨2, [1, 2], some ⟨0x7F000001, 53⟩⟩] ∧
    ((machine UInt8).stateOf (drainedOps false)).checkSocketId 0 0xFAFB = some 0 ∧
    (((machine UInt8).stateOf (drainedOps false)).sockets 0).udpData = [] ∧
    (((machine UInt8).stateOf (drainedOps false)).libuvSocketReceive 0 0xFAFB true 16).isNone :=
  ⟨Machine.run_exec (by decide +kernel), by decide +kernel, by decide +kernel, by decide +kernel,
    by decide +kernel⟩

end Libuv
end LuatosPc
