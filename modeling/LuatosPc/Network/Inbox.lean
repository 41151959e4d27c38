import LuatosPc.Network.Buffers

/-!
# What a socket receives

`recv_buff` and `udp_data` belong to the slot, not to the socket that uses it.
Closing a socket does not empty them, and neither does handing the slot out
again; only `libuv_socket_clean` does.  So what an owner reads is what was
delivered to it as long as the slot was handed out empty, and otherwise it may
read what was meant for the owner before.

* `UvConn.unread`, `Adapter.inbox` — what a slot holds for its owner.
* `delivered`, `deliveredUdp` — what libuv handed to a slot in a part of a run.
* `step_inbox` — a step adds to a slot what it delivers to it and nothing else.
* `OwnData` — what a receive returned came after the slot was handed out with
  the caller's tag; `receive_returns_own_data` — so it is in every run whose
  creates find the slot empty (`FreshOk`), and `receive_returns_stale_data` — a
  run in which it is not.
-/

namespace LuatosPc
namespace Libuv

open Adapter
open scoped List

variable {β : Type}

/-- The bytes of a TCP slot not yet read. -/
def UvConn.unread (c : UvConn β) : List β := (c.recvBuff.getD []).take c.recvSize

/-- What slot `s` holds for its owner: a byte stream, and a list of datagrams. -/
def Adapter.inbox (σ : Adapter β) (s : Slot) : List β × List (UdpData β) :=
  ((σ.sockets s).unread, (σ.sockets s).udpData)

/-- The bytes the action delivers to slot `s`. -/
def Op.bytesTo (s : Slot) : Op β → List β
  | .onRecv s' (.data bytes) _ _ => if s' = s then bytes else []
  | _ => []

/-- The datagrams the action delivers to slot `s`. -/
def Op.datagramsTo (s : Slot) : Op β → List (UdpData β)
  | .onRecvUdp s' (some d) _ _ => if s' = s then [d] else []
  | _ => []

/-- The bytes delivered to slot `s` in the course of the transitions. -/
def delivered (s : Slot) (tr : List (Trans β)) : List β := tr.flatMap fun e => e.act.bytesTo s

/-- The datagrams delivered to slot `s` in the course of the transitions. -/
def deliveredUdp (s : Slot) (tr : List (Trans β)) : List (UdpData β) :=
  tr.flatMap fun e => e.act.datagramsTo s

theorem delivered_snoc (s : Slot) (tr : List (Trans β)) (e : Trans β) :
    delivered s (tr ++ [e]) = delivered s tr ++ e.act.bytesTo s := by
  simp [delivered]

theorem deliveredUdp_snoc (s : Slot) (tr : List (Trans β)) (e : Trans β) :
    deliveredUdp s (tr ++ [e]) = deliveredUdp s tr ++ e.act.datagramsTo s := by
  simp [deliveredUdp]

/-! ## What a step does to an inbox -/

namespace Adapter

/-- The inbox is a view of what the slot has received. -/
theorem inbox_of_rx {σ σ' : Adapter β} {s : Slot}
    (h : (σ'.sockets s).rx = (σ.sockets s).rx) : σ'.inbox s = σ.inbox s := by
  have hbuff : (σ'.sockets s).recvBuff = (σ.sockets s).recvBuff := congrArg Rx.recvBuff h
  have hsize : (σ'.sockets s).recvSize = (σ.sockets s).recvSize := congrArg Rx.recvSize h
  have hdata : (σ'.sockets s).udpData = (σ.sockets s).udpData := congrArg Rx.udpData h
  simp only [inbox, UvConn.unread, hbuff, hsize, hdata]

/-- `libuv_socket_clean` leaves an inbox alone or empties it. -/
theorem inbox_cleanOne (σ : Adapter β) (id : Int) (s' : Slot) :
    (σ.cleanOne id).inbox s' = σ.inbox s' ∨ (σ.cleanOne id).inbox s' = ([], []) := by
  unfold cleanOne
  split
  · exact Or.inl rfl
  · split
    · rename_i s _ _
      unfold inbox
      rw [modify_sockets]
      split
      · exact Or.inr rfl
      · exact Or.inl rfl
    · exact Or.inl rfl

theorem inbox_clean (list : List Int) (σ : Adapter β) (s' : Slot) :
    (σ.libuvSocketClean list).inbox s' = σ.inbox s' ∨
      (σ.libuvSocketClean list).inbox s' = ([], []) := by
  unfold libuvSocketClean
  induction list generalizing σ with
  | nil => exact Or.inl rfl
  | cons id list ih =>
    rw [List.foldl_cons]
    rcases ih (σ.cleanOne id) with h | h
    · rw [h]
      exact inbox_cleanOne σ id s'
    · exact Or.inr h

/-- Taking bytes off the front leaves the rest. -/
theorem unread_consume (c : UvConn β) (n : Nat) : (c.consume n).unread = c.unread.drop n := by
  unfold UvConn.consume UvConn.unread
  split
  · rename_i h
    simp only [Option.getD_none, List.take_nil]
    rw [List.drop_take, h, List.take_zero]
  · simp [List.drop_take]

/-- A receive only takes things out. -/
theorem inbox_receive {σ σ' : Adapter β} {id : Int} {tag : UInt64} {buf : Bool} {len : UInt32}
    {r : Received β} (h : σ.libuvSocketReceive id tag buf len = some (σ', r)) (s' : Slot) :
    (σ'.inbox s').1 <+ (σ.inbox s').1 ∧ (σ'.inbox s').2 <+ (σ.inbox s').2 := by
  obtain ⟨rfl, -⟩ | ⟨s, n, -, -, -, -, rfl⟩ | ⟨s, d, ds, n, -, -, hd, -, rfl⟩ :=
    libuvSocketReceive_cases h
  · exact ⟨List.Sublist.refl _, List.Sublist.refl _⟩
  · simp only [inbox, modify_sockets]
    split
    · rename_i hs
      subst hs
      rw [unread_consume]
      exact ⟨List.drop_sublist _ _, List.Sublist.refl _⟩
    · exact ⟨List.Sublist.refl _, List.Sublist.refl _⟩
  · simp only [inbox, modify_sockets]
    split
    · rename_i hs
      subst hs
      rw [hd]
      exact ⟨List.Sublist.refl _, List.sublist_cons_self _ _⟩
    · exact ⟨List.Sublist.refl _, List.Sublist.refl _⟩

/-- Data for slot `s` is appended, as far as there is memory for it. -/
theorem inbox_onRecv (σ : Adapter β) (s : Slot) (b : β) (bs : List β) (room posted : Bool) :
    ((σ.onRecv s (.data (b :: bs)) room posted).inbox s).1 <+ (σ.inbox s).1 ++ b :: bs ∧
      ((σ.onRecv s (.data (b :: bs)) room posted).inbox s).2 = (σ.inbox s).2 := by
  cases hb : (σ.sockets s).recvBuff with
  | none => simp [onRecv, hb, inbox, modify_sockets, UvConn.unread]
  | some old =>
    cases room with
    | true =>
      simp only [onRecv, hb, if_true, cbToNwTask_sockets, inbox, modify_sockets, UvConn.unread,
        Option.getD_some, and_true]
      exact List.take_sublist _ _
    | false => simp [onRecv, hb, inbox]

/-- A datagram for slot `s` is appended, if there is memory for it. -/
theorem inbox_onRecvUdp (σ : Adapter β) (s : Slot) (d : UdpData β) (room posted : Bool) :
    ((σ.onRecvUdp s (some d) room posted).inbox s).1 = (σ.inbox s).1 ∧
      ((σ.onRecvUdp s (some d) room posted).inbox s).2 <+ (σ.inbox s).2 ++ [d] := by
  simp only [onRecvUdp]
  split
  · exact ⟨rfl, List.sublist_append_left _ _⟩
  · split
    · simp [inbox, modify_sockets, UvConn.unread]
    · exact ⟨rfl, List.sublist_append_left _ _⟩

end Adapter

/-- **A step adds to an inbox only what it delivers.** -/
theorem step_inbox {σ σ' : Adapter β} {op : Op β} {o : Answer β} (h : step σ op = some (σ', o))
    (s : Slot) : (σ'.inbox s).1 <+ (σ.inbox s).1 ++ op.bytesTo s ∧
      (σ'.inbox s).2 <+ (σ.inbox s).2 ++ op.datagramsTo s := by
  by_cases hq : NoTraffic σ s op
  · -- most steps leave the inbox as it is
    rw [inbox_of_rx (step_rx_of_noTraffic h hq)]
    exact ⟨List.sublist_append_left _ _, List.sublist_append_left _ _⟩
  rcases traffic_cases hq with ⟨b, bs, room, posted, rfl⟩ | ⟨d, room, posted, rfl⟩ |
    ⟨id, tag, len, rfl, -⟩ | ⟨list, rfl, -⟩
  · obtain ⟨-, rfl, -⟩ := step_onRecv_eq_some h
    simp only [stopReading]
    obtain ⟨h1, h2⟩ := inbox_onRecv σ s b bs room posted
    exact ⟨by simpa [Op.bytesTo] using h1, by rw [h2]; exact List.sublist_append_left _ _⟩
  · obtain ⟨-, rfl, -⟩ := step_onRecvUdp_eq_some h
    obtain ⟨h1, h2⟩ := inbox_onRecvUdp σ s d room posted
    exact ⟨by rw [h1]; exact List.sublist_append_left _ _, by simpa [Op.datagramsTo] using h2⟩
  · simp only [step, Option.map_eq_some_iff, Prod.mk.injEq] at h
    obtain ⟨⟨τ, r⟩, hr, rfl, -⟩ := h
    simpa [Op.bytesTo, Op.datagramsTo] using inbox_receive hr s
  · cases h
    rcases inbox_clean list σ s with heq | heq
    · rw [heq]
      exact ⟨List.sublist_append_left _ _, List.sublist_append_left _ _⟩
    · rw [heq]
      exact ⟨List.nil_sublist _, List.nil_sublist _⟩

/-! ## Whose data it is -/

/-- What a receive with tag `tag` on slot `s` returned was delivered after the
slot was handed out with this tag: the bytes of a stream come, in order, from
what `on_recv` brought since, a datagram is one that `on_recv_udp` brought
since. -/
def OwnData (tr : List (Trans β)) (s : Slot) (tag : UInt64) (r : Received β) : Prop :=
  ∃ pre c post, tr = pre ++ c :: post ∧ HandsOut c s tag ∧
    match r.sender with
    | none => r.bytes <+ delivered s post
    | some a => ∃ d ∈ deliveredUdp s post, d.addr = a ∧ ∃ n, r.bytes = d.data.take n

/-- A create finds nothing in the slot that its socket could read. -/
def FreshOk (e : Trans β) : Prop :=
  match e.act with
  | .create isTcp _ _ => ∀ s, e.src.findFree = some s →
      if isTcp then (e.src.sockets s).recvSize = 0 else (e.src.sockets s).udpData = []
  | _ => True

/-- The inbox of a slot in use holds what was delivered to it since it was handed
out with its present tag. -/
def InboxOk (tr : List (Trans β)) (σ : Adapter β) : Prop :=
  ∀ s, (σ.sockets s).tag ≠ 0 → ∃ pre c post, tr = pre ++ c :: post ∧
    HandsOut c s (σ.sockets s).tag ∧
    ((σ.sockets s).isTcp = true → (σ.inbox s).1 <+ delivered s post) ∧
    ((σ.sockets s).isTcp = false → (σ.inbox s).2 <+ deliveredUdp s post)

/-- A slot changes its protocol when it is handed out, and not otherwise. -/
theorem step_isTcp {σ σ' : Adapter β} {op : Op β} {o : Answer β} {s : Slot}
    (h : step σ op = some (σ', o)) (ho : ¬ ∃ t, o = .created s.val (some t)) :
    (σ'.sockets s).isTcp = (σ.sockets s).isTcp := by
  rcases (SlotView.step_frame (view_step h s)).isTcp with ⟨t, hc⟩ | heq
  · exact absurd ⟨t, (slotAct_eq_create hc).2⟩ ho
  · exact heq

theorem InboxOk.step {tr : List (Trans β)} {σ σ' : Adapter β} {op : Op β} {o : Answer β}
    (hok : InboxOk tr σ) (h : step σ op = some (σ', o)) (hfresh : FreshOk ⟨σ, op, o, σ'⟩) :
    InboxOk (tr ++ [⟨σ, op, o, σ'⟩]) σ' := by
  intro s hs
  by_cases ho : ∃ t, o = .created s.val (some t)
  · -- the slot has just been handed out, and it was empty
    obtain ⟨t, rfl⟩ := ho
    obtain ⟨hcr, hfree, rfl⟩ := handsOut_step h rfl
    cases op with
    | create isTcp param isIpv6 =>
      simp only [Libuv.step, Option.some.injEq, Prod.mk.injEq] at h
      have hslot := (libuvCreateSocket_of_some hfree isTcp param isIpv6).2 s
      have hbox := inbox_of_rx (rx_create σ isTcp param isIpv6 s)
      rw [h.1] at hslot hbox
      rw [if_pos rfl] at hslot
      refine ⟨tr, _, [], rfl, ?_, ?_, ?_⟩
      · rw [hslot]; rfl
      · intro htcp
        have ht : isTcp = true := by rw [hslot] at htcp; exact htcp
        have h0 : (σ.sockets s).recvSize = 0 := by simpa [FreshOk, ht] using hfresh s hfree
        rw [hbox]
        simp [inbox, UvConn.unread, h0]
      · intro htcp
        have ht : isTcp = false := by rw [hslot] at htcp; exact htcp
        have h0 : (σ.sockets s).udpData = [] := by simpa [FreshOk, ht] using hfresh s hfree
        rw [hbox]
        simp [inbox, h0]
    | _ => cases hcr
  · -- otherwise the socket is the one it was, and its inbox grew by what was delivered
    have htag : (σ'.sockets s).tag = (σ.sockets s).tag := by
      rcases step_tag h s with hc | heq | h0
      · exact absurd ⟨_, hc⟩ ho
      · exact heq
      · exact absurd h0 hs
    have htcp : (σ'.sockets s).isTcp = (σ.sockets s).isTcp := step_isTcp h ho
    obtain ⟨hbytes, hdata⟩ := step_inbox h s
    rw [htag] at hs
    obtain ⟨pre, c, post, rfl, hc, h1, h2⟩ := hok s hs
    refine ⟨pre, c, post ++ [⟨σ, op, o, σ'⟩], by simp, by rw [htag]; exact hc, ?_, ?_⟩
    · intro ht
      rw [htcp] at ht
      rw [delivered_snoc]
      exact hbytes.trans ((h1 ht).append (List.Sublist.refl _))
    · intro ht
      rw [htcp] at ht
      rw [deliveredUdp_snoc]
      exact hdata.trans ((h2 ht).append (List.Sublist.refl _))

theorem inboxOk_run {tr : List (Trans β)} {σ : Adapter β} (h : Run (machine β) tr σ)
    (hok : ∀ e ∈ tr, FreshOk e) : InboxOk tr σ := by
  refine h.history_invariant (I := InboxOk) (C := fun _ e => FreshOk e) ?_ ?_ ?_
  · intro pre e post he
    exact hok e (by simp [he])
  · intro s hs
    exact absurd rfl hs
  · intro tr σ op σ' o _ hI hstep hC
    exact hI.step hstep hC

/-- **Received data never crosses sockets.**  In every run whose creates find
their slots empty, whatever a receive returns was delivered after the create
that gave the caller its tag. -/
theorem receive_returns_own_data {tr : List (Trans β)} {σ : Adapter β} (h : Run (machine β) tr σ)
    (hok : ∀ e ∈ tr, FreshOk e) {pre post : List (Trans β)} {e : Trans β}
    (he : tr = pre ++ e :: post) {id : Int} {tag : UInt64} {buf : Bool} {len : UInt32}
    (hact : e.act = .receive id tag buf len) {r : Received β} (hout : e.out = .received r)
    (hr : r.bytes ≠ [] ∨ r.sender ≠ none) :
    ∃ s, slotOf id = some s ∧ OwnData pre s tag r := by
  obtain ⟨hpre, hstep⟩ := h.split he
  have hinv : InboxOk pre e.src := inboxOk_run hpre fun e' he' => hok e' (by simp [he, he'])
  simp only [machine, step, hact, Option.map_eq_some_iff, Prod.mk.injEq, hout,
    Answer.received.injEq] at hstep
  obtain ⟨⟨τ, r'⟩, hrec, -, rfl⟩ := hstep
  obtain ⟨-, hb, hsnd⟩ | ⟨s, n, hc, htcp, hn, rfl, -⟩ | ⟨s, d, ds, n, hc, htcp, hd, rfl, -⟩ :=
    libuvSocketReceive_cases hrec
  · exact absurd hr (by simp [hb, hsnd])
  · obtain ⟨hid, hrel, htag⟩ := checkSocketId_eq_some.1 hc
    obtain ⟨p, c, q, rfl, hout', h1, -⟩ := hinv s fun h0 => hrel (Or.inl h0)
    refine ⟨s, hid, p, c, q, rfl, by rw [← htag]; exact hout', ?_⟩
    -- what is handed out is the front of what is unread
    have hfront : ((e.src.sockets s).recvBuff.getD []).take n = (e.src.inbox s).1.take n := by
      simp only [inbox, UvConn.unread, List.take_take]
      rw [Nat.min_eq_left hn]
    show ((e.src.sockets s).recvBuff.getD []).take n <+ delivered s q
    rw [hfront]
    exact (List.take_sublist _ _).trans (h1 htcp)
  · obtain ⟨hid, hrel, htag⟩ := checkSocketId_eq_some.1 hc
    obtain ⟨p, c, q, rfl, hout', -, h2⟩ := hinv s fun h0 => hrel (Or.inl h0)
    refine ⟨s, hid, p, c, q, rfl, by rw [← htag]; exact hout', ?_⟩
    have hmem : d ∈ (e.src.inbox s).2 := by simp [inbox, hd]
    exact ⟨d, (h2 htcp).subset hmem, rfl, n, rfl⟩

/-- Slot 0 is used, and its two bytes are read by the socket they were sent to. -/
def readOps : List (Op UInt8) :=
  [.create true 0 false, .connect 0 0xFAFB 0, .onConnect 0 0 0 true,
    .onRecv 0 (.data [0x68, 0x69]) true true, .receive 0 0xFAFB true 16]

theorem receive_returns_own_data_read :
    ∃ s, slotOf 0 = some s ∧
      OwnData (((machine UInt8).traceOf readOps).take 4) s 0xFAFB ⟨2, [0x68, 0x69], none⟩ := by
  have hexec : ((machine UInt8).exec (machine UInt8).init readOps).isSome = true := by decide
  have hfresh : (machine UInt8).Along (fun _ e => FreshOk e) [] (machine UInt8).init readOps :=
    ⟨fun s _ => rfl, trivial, trivial, trivial, trivial, trivial⟩
  have h4 : 4 < ((machine UInt8).traceOf readOps).length := by decide
  have hout : ((machine UInt8).traceOf readOps)[4].out = .received ⟨2, [0x68, 0x69], none⟩ := by
    decide +revert
  have hsplit : (machine UInt8).traceOf readOps = ((machine UInt8).traceOf readOps).take 4 ++
      ((machine UInt8).traceOf readOps)[4] :: ((machine UInt8).traceOf readOps).drop 5 := by simp
  exact receive_returns_own_data (Machine.run_exec hexec) (Machine.forall_mem_traceOf hfresh) hsplit
    rfl hout (Or.inl (by simp))

/-- A socket leaves two bytes unread when it is closed; the eighth create after
that hands out its slot once more, and the new owner asks for data. -/
def staleOps : List (Op UInt8) :=
  [Op.create true 0 false, Op.connect 0 0xFAFB 0, Op.onConnect 0 0 0 true,
    Op.onRecv 0 (.data [0x68, 0x69]) true true, Op.close 0 0xFAFB 0, Op.onShutdown 0 true] ++
    List.replicate 8 (Op.create true 0 false) ++ [Op.receive 0 0xFB03 true 16]

/-- The new owner of the slot reads what was sent to the one before. -/
theorem receive_returns_stale_data :
    Run (machine UInt8) ((machine UInt8).traceOf staleOps) ((machine UInt8).stateOf staleOps) ∧
      ∃ pre e, (machine UInt8).traceOf staleOps = pre ++ [e] ∧
        e.act = .receive 0 0xFB03 true 16 ∧ e.out = .received ⟨2, [0x68, 0x69], none⟩ ∧
        ¬ OwnData pre 0 0xFB03 ⟨2, [0x68, 0x69], none⟩ := by
  have h14 : 14 < ((machine UInt8).traceOf staleOps).length := by decide
  have h13 : 13 < ((machine UInt8).traceOf staleOps).length := by decide
  have hlast : ((machine UInt8).traceOf staleOps).take 14 =
      ((machine UInt8).traceOf staleOps).take 13 ++ [((machine UInt8).traceOf staleOps)[13]] := by
    simp
  refine ⟨Machine.run_exec (by decide), ((machine UInt8).traceOf staleOps).take 14,
    ((machine UInt8).traceOf staleOps)[14], ?_, rfl, by decide +revert, ?_⟩
  · have hlen : ((machine UInt8).traceOf staleOps).length = 15 := by decide
    rw [List.take_append_getElem, List.take_of_length_le (by omega)]
  · rintro ⟨pre, c, post, heq, hout, hsub⟩
    rw [hlast] at heq
    rcases List.eq_nil_or_concat post with rfl | ⟨post', l, rfl⟩
    · -- handed out last, nothing was delivered since
      exact absurd hsub.length_le (by simp [delivered])
    · -- no create before the last one gave this tag
      have heq' : ((machine UInt8).traceOf staleOps).take 13 = pre ++ c :: post' := by
        have := List.append_inj' (heq.trans (by simp : _ = (pre ++ c :: post') ++ [l])) rfl
        exact this.1
      have hnone : ∀ e ∈ ((machine UInt8).traceOf staleOps).take 13,
          e.out ≠ .created 0 (some 0xFB03) := by decide
      exact hnone c (by simp [heq']) hout

end Libuv
end LuatosPc
