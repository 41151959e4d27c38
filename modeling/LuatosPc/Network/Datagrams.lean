import LuatosPc.Network.Nodes
import LuatosPc.Network.Stream

/-!
# The datagrams of a UDP socket

The adapter together with the memory its datagrams lie in: each action is made on
both, and what a UDP receive answers comes from the nodes in memory.

* `memMachine` — the two side by side; `memMachine_refines` — its runs are runs of the
  adapter, and the memory holds what the adapter says.
* `takenUdp`, `storedUdp` — the receives of a slot with what they answered, and the
  datagrams that got a node.
* `step_datagrams` — one step puts a datagram at the end, or takes the first.
* `udp_datagram_order` — over the life of a socket, receives answer with its datagrams
  in the order in which they came.
-/

namespace LuatosPc
namespace Libuv

open Adapter

variable {β : Type}

/-- One action on the adapter and its memory.  The heap does not return a block that
is in use. -/
def memStep (st : Adapter β × Memory β) (x : Op β × Addr) :
    Option ((Adapter β × Memory β) × Answer β) :=
  if x.2 ∈ st.2.nodes.keys then none
  else do
    let r ← step st.1 x.1
    let q ← st.2.step st.1 x.2 r.2 x.1
    return ((r.1, q.1), q.2)

/-- The adapter with its memory, under every sequence of calls and callbacks. -/
def memMachine (β : Type) : Machine (Adapter β × Memory β) (Op β × Addr) (Answer β) :=
  ⟨(.start, .start), memStep⟩

/-- A transition of the adapter with its memory. -/
abbrev MemTrans (β : Type) := Transition (Adapter β × Memory β) (Op β × Addr) (Answer β)

/-- What is left of a transition without the memory. -/
def MemTrans.adapter (e : MemTrans β) : Trans β := ⟨e.src.1, e.act.1, e.out, e.dst.1⟩

/-- The memory is in order if it holds the datagrams of the adapter. -/
def InOrder (st : Adapter β × Memory β) : Prop := ∃ cells, Represents st.1 st.2 cells

/-- With a memory in order, a step is a step of the adapter, and the memory stays in
order. -/
theorem memStep_refines {st st' : Adapter β × Memory β} {x : Op β × Addr} {o : Answer β}
    (hst : InOrder st) (h : memStep st x = some (st', o)) :
    step st.1 x.1 = some (st'.1, o) ∧ InOrder st' := by
  unfold memStep at h
  split at h
  · exact absurd h (by simp)
  · rename_i hfree
    simp only [Option.bind_eq_bind, Option.bind_eq_some_iff, Option.pure_def, Option.some.injEq,
      Prod.mk.injEq] at h
    obtain ⟨⟨σ', o'⟩, hstep, ⟨m₁, o₁⟩, hmem, rfl, rfl⟩ := h
    obtain ⟨m', hmem', hst'⟩ := represents_step hst hstep hfree
    rw [hmem', Option.some.injEq, Prod.mk.injEq] at hmem
    obtain ⟨rfl, rfl⟩ := hmem
    exact ⟨hstep, hst'⟩

/-- And every step of the adapter is one of the two together. -/
theorem memStep_of_step {st : Adapter β × Memory β} {x : Op β × Addr} {σ' : Adapter β}
    {o : Answer β} (hst : InOrder st) (h : step st.1 x.1 = some (σ', o))
    (hfree : x.2 ∉ st.2.nodes.keys) : ∃ m', memStep st x = some ((σ', m'), o) := by
  obtain ⟨m', hmem, -⟩ := represents_step hst h hfree
  exact ⟨m', by simp [memStep, hfree, h, hmem]⟩

/-- **The code on the nodes refines the adapter.** -/
theorem memMachine_refines {tr : List (MemTrans β)} {st : Adapter β × Memory β}
    (h : Run (memMachine β) tr st) :
    Run (machine β) (tr.map MemTrans.adapter) st.1 ∧ InOrder st := by
  induction h with
  | start => exact ⟨.start, _, Represents.start⟩
  | snoc _ hs ih =>
    obtain ⟨hstep, horder⟩ := memStep_refines ih.2 hs
    rw [List.map_append]
    exact ⟨.snoc ih.1 hstep, horder⟩

/-- The size query reads the first node and changes nothing. -/
theorem Represents.receiveUdp_null {σ : Adapter β} {m : Memory β}
    {cells : Slot → List (Addr × UdpData β)} (h : Represents σ m cells) {s : Slot}
    {d : UdpData β} {ds : List (UdpData β)} (hd : (σ.sockets s).udpData = d :: ds) (len : UInt32) :
    m.receiveUdp s false len = some (m, ⟨toCInt d.data.length, [], none⟩) := by
  have hdata := h.datagrams s
  have hqueued := h.queued s
  rw [hd] at hdata
  obtain ⟨c, rest, hcells, rfl, -⟩ := List.map_eq_cons_iff.1 hdata
  rw [hcells] at hqueued
  obtain ⟨n, hhead, hn, hlen, -⟩ := hqueued.head
  simp [Memory.receiveUdp, hhead, hn, hlen]

/-! ## What a step does to the datagrams -/

/-- What a receive of `len` bytes answers with a datagram. -/
def UdpData.cut (d : UdpData β) (len : UInt32) : Received β :=
  ⟨toCInt (min len.toNat d.data.length), d.data.take len.toNat, some d.addr⟩

/-- A receive on slot `s` with a buffer that is not empty: its length, and the answer. -/
def takenUdp (s : Slot) (e : Trans β) : List (UInt32 × Received β) :=
  match e.act, e.out with
  | .receive id tag true len, .received r =>
    if e.src.checkSocketId id tag = some s ∧ len.toNat ≠ 0 then [(len, r)] else []
  | _, _ => []

/-- A datagram for slot `s` that is not empty and gets a node. -/
def storedUdp (s : Slot) (e : Trans β) : List (UdpData β) :=
  match e.act with
  | .onRecvUdp s' (some d) room _ =>
    if s' = s ∧ d.data ≠ [] ∧ room = true then [d] else []
  | _ => []

/-- A receive on a UDP slot, in terms of its list. -/
theorem receive_udp_eq {σ : Adapter β} {s : Slot} {id : Int} {tag : UInt64}
    (hcheck : σ.checkSocketId id tag = some s) (hudp : (σ.sockets s).isTcp = false)
    {d : UdpData β} {ds : List (UdpData β)} (hd : (σ.sockets s).udpData = d :: ds) (len : UInt32) :
    σ.libuvSocketReceive id tag false len = some (σ, ⟨toCInt d.data.length, [], none⟩) ∧
      (len.toNat ≠ 0 → σ.libuvSocketReceive id tag true len =
        some (σ.modify s fun c => { c with udpData := ds }, d.cut len)) := by
  have hmin : (if d.data.length < len.toNat then d.data.length else len.toNat) =
      min len.toNat d.data.length := by
    split <;> omega
  refine ⟨by simp [libuvSocketReceive, hcheck, hudp, receiveUdp, hd], ?_⟩
  intro hlen
  have htake : d.data.take (min len.toNat d.data.length) = d.data.take len.toNat := by
    rw [List.take_eq_take_iff]
    omega
  simp [libuvSocketReceive, hcheck, hudp, receiveUdp, hd, hlen, hmin, UdpData.cut, htake]

/-- An action without traffic takes and stores nothing. -/
theorem datagrams_of_noTraffic {e : Trans β} {s : Slot} (h : NoTraffic e.src s e.act) :
    takenUdp s e = [] ∧ storedUdp s e = [] := by
  constructor
  · unfold takenUdp
    split
    · rename_i id tag len r hact _
      rw [hact] at h
      exact if_neg fun hand => h hand.1
    · rfl
  · unfold storedUdp
    split
    · rename_i s' d room posted hact
      rw [hact] at h
      exact if_neg fun hand => h hand.1
    · rfl

/-- `on_recv_udp` puts the datagram at the end, if it stores it. -/
theorem udpData_onRecvUdp (σ : Adapter β) (s : Slot) (d : UdpData β) (room posted : Bool) :
    ((σ.onRecvUdp s (some d) room posted).sockets s).udpData =
      (σ.sockets s).udpData ++ if d.data ≠ [] ∧ room = true then [d] else [] := by
  by_cases hd : d.data = []
  · simp [Adapter.onRecvUdp, hd]
  · cases room <;> simp [Adapter.onRecvUdp, hd, modify_sockets]

/-- **One step** puts at the end what it stores, or takes the first datagram. -/
theorem step_datagrams {σ σ' : Adapter β} {op : Op β} {o : Answer β} {s : Slot}
    (hudp : (σ.sockets s).isTcp = false) (h : step σ op = some (σ', o))
    (hend : ¬ Ends s ⟨σ, op, o, σ'⟩) :
    (takenUdp s ⟨σ, op, o, σ'⟩ = [] ∧
      (σ'.sockets s).udpData = (σ.sockets s).udpData ++ storedUdp s ⟨σ, op, o, σ'⟩) ∨
    (storedUdp s ⟨σ, op, o, σ'⟩ = [] ∧ ∃ len d, takenUdp s ⟨σ, op, o, σ'⟩ = [(len, d.cut len)] ∧
      (σ.sockets s).udpData = d :: (σ'.sockets s).udpData) := by
  by_cases hq : NoTraffic σ s op
  · have hnone := datagrams_of_noTraffic (e := ⟨σ, op, o, σ'⟩) hq
    refine Or.inl ⟨hnone.1, ?_⟩
    rw [hnone.2, List.append_nil]
    exact congrArg Rx.udpData (step_rx_of_noTraffic h hq)
  obtain ⟨b, bs, room, posted, rfl⟩ | ⟨d, room, posted, rfl⟩ | ⟨id, tag, len, rfl, hcheck⟩ |
    ⟨list, rfl, hclean⟩ := traffic_cases hq
  · -- bytes have a buffer of their own
    refine Or.inl ⟨rfl, ?_⟩
    rw [step_udpData h rfl]
    exact (List.append_nil _).symm
  · obtain ⟨-, rfl, rfl⟩ := step_onRecvUdp_eq_some h
    refine Or.inl ⟨rfl, ?_⟩
    rw [udpData_onRecvUdp]
    simp [storedUdp]
  · simp only [step, Option.map_eq_some_iff, Prod.mk.injEq] at h
    obtain ⟨⟨τ, r⟩, hrec, rfl, rfl⟩ := h
    by_cases hlen : len.toNat = 0
    · -- a receive of nothing
      simp only [libuvSocketReceive, hcheck, hudp, Bool.false_eq_true, if_false, receiveUdp,
        Bool.true_eq_false, hlen, if_true, Option.some.injEq, Prod.mk.injEq] at hrec
      obtain ⟨rfl, -⟩ := hrec
      exact Or.inl ⟨by simp [takenUdp, hlen], by simp [storedUdp]⟩
    · cases hd : (σ.sockets s).udpData with
      | nil =>
        -- the list is empty, and its head is followed
        simp [libuvSocketReceive, hcheck, hudp, receiveUdp, hlen, hd] at hrec
      | cons d ds =>
        rw [(receive_udp_eq hcheck hudp hd len).2 hlen, Option.some.injEq, Prod.mk.injEq] at hrec
        obtain ⟨rfl, rfl⟩ := hrec
        refine Or.inr ⟨rfl, len, d, by simp [takenUdp, hcheck, hlen], ?_⟩
        rw [modify_sockets, if_pos rfl]
  · exact absurd (Or.inr ⟨list, rfl, hclean⟩) hend

/-- **The life of a UDP socket** whose list is empty at first: the receives answer with
the first datagrams, one each, and the others are in the list. -/
theorem path_datagrams {σ₀ σ : Adapter β} {tr : List (Trans β)} {s : Slot}
    (h : Path (machine β) σ₀ tr σ) (hudp : (σ₀.sockets s).isTcp = false)
    (hempty : (σ₀.sockets s).udpData = []) (hends : ∀ e ∈ tr, ¬ Ends s e) :
    (σ.sockets s).isTcp = false ∧ ∃ firsts,
      tr.flatMap (storedUdp s) = firsts ++ (σ.sockets s).udpData ∧
      List.Forall₂ (fun q d => q.2 = d.cut q.1) (tr.flatMap (takenUdp s)) firsts := by
  refine h.history_invariant (C := fun e => ¬ Ends s e)
    (I := fun tr σ => (σ.sockets s).isTcp = false ∧ ∃ firsts,
      tr.flatMap (storedUdp s) = firsts ++ (σ.sockets s).udpData ∧
      List.Forall₂ (fun q d => q.2 = d.cut q.1) (tr.flatMap (takenUdp s)) firsts) hends ?_ ?_
  · exact ⟨hudp, [], by simp [hempty], .nil⟩
  · rintro tr σ op σ' o ⟨hudp, firsts, hstored, htaken⟩ hs hend
    have hudp' : (σ'.sockets s).isTcp = false := by
      rw [step_isTcp hs fun ho => hend (Or.inl ho)]
      exact hudp
    refine ⟨hudp', ?_⟩
    simp only [List.flatMap_append, List.flatMap_singleton]
    obtain ⟨hnone, hput⟩ | ⟨hnone, len, d, htook, hfirst⟩ := step_datagrams hudp hs hend
    · refine ⟨firsts, ?_, ?_⟩
      · rw [hput, hstored, List.append_assoc]
      · rw [hnone, List.append_nil]
        exact htaken
    · refine ⟨firsts ++ [d], ?_, ?_⟩
      · rw [hnone, hstored, hfirst, List.append_nil, List.append_assoc]
        rfl
      · rw [htook]
        exact List.rel_append htaken (.cons rfl .nil)

/-! ## The life of a socket in memory -/

/-- A datagram for slot `s` is not empty and gets a node. -/
def NodeOk (s : Slot) (e : Trans β) : Prop :=
  ∀ d room posted, e.act = .onRecvUdp s (some d) room posted → d.data ≠ [] ∧ room = true

/-- Where all of them get a node, the datagrams stored are those that came. -/
theorem storedUdp_eq {s : Slot} {e : Trans β} (h : NodeOk s e) :
    storedUdp s e = e.act.datagramsTo s := by
  obtain ⟨σ, op, o, σ'⟩ := e
  cases op with
  | onRecvUdp s' d room posted =>
    cases d with
    | none => rfl
    | some d =>
      by_cases hs : s' = s
      · subst hs
        simp [storedUdp, Op.datagramsTo, h d room posted rfl]
      · simp [storedUdp, Op.datagramsTo, hs]
  | _ => rfl

/-- **UDP datagram order.**  From a transition that leaves slot `s` to a UDP socket
with an empty list (its create, say), and until that socket is no more: the datagrams
that came are those with which the receives have answered, one each and in this order,
followed by those whose nodes are linked from `udp_data`.  A size query answers with
the size of the datagram that the next receive will return. -/
theorem udp_datagram_order {tr : List (MemTrans β)} {st : Adapter β × Memory β}
    (h : Run (memMachine β) tr st) {pre post : List (MemTrans β)} {c : MemTrans β}
    (he : tr = pre ++ c :: post) {s : Slot} (hudp : (c.dst.1.sockets s).isTcp = false)
    (hempty : c.dst.2.udpData s = none) (hends : ∀ e ∈ post, ¬ Ends s e.adapter) :
    ∃ firsts cells,
      (post.map MemTrans.adapter).flatMap (storedUdp s) = firsts ++ cells.map Prod.snd ∧
      List.Forall₂ (fun q d => q.2 = d.cut q.1)
        ((post.map MemTrans.adapter).flatMap (takenUdp s)) firsts ∧
      Queued st.2.nodes (st.2.udpData s) cells ∧
      ((∀ e ∈ post, NodeOk s e.adapter) →
        (post.map MemTrans.adapter).flatMap (storedUdp s) =
          deliveredUdp s (post.map MemTrans.adapter)) ∧
      ∀ d ds, cells.map Prod.snd = d :: ds → ∀ id t a, st.1.checkSocketId id t = some s →
        a ∉ st.2.nodes.keys → ∀ len,
          memStep st (.receive id t false len, a) =
            some (st, .received ⟨toCInt d.data.length, [], none⟩) ∧
          (len.toNat ≠ 0 → ∃ st', memStep st (.receive id t true len, a) =
            some (st', .received (d.cut len))) := by
  obtain ⟨hrun, cells, hcells⟩ := memMachine_refines h
  -- the slot's list is empty for the adapter, too
  have hstart : (c.dst.1.sockets s).udpData = [] := by
    obtain ⟨hpre, hstep⟩ := h.split he
    obtain ⟨-, cells₀, hcells₀⟩ := memStep_refines (memMachine_refines hpre).2 hstep
    exact (hcells₀.udpData_eq_none_iff s).1 hempty
  have he' : tr.map MemTrans.adapter =
      pre.map MemTrans.adapter ++ c.adapter :: post.map MemTrans.adapter := by
    rw [he, List.map_append, List.map_cons]
  have hends' : ∀ e ∈ post.map MemTrans.adapter, ¬ Ends s e := by
    intro e hmem
    obtain ⟨e', he', rfl⟩ := List.mem_map.1 hmem
    exact hends e' he'
  obtain ⟨hudp', firsts, hstored, htaken⟩ := path_datagrams (hrun.path he') hudp hstart hends'
  rw [← hcells.datagrams s] at hstored
  refine ⟨firsts, cells s, hstored, htaken, hcells.queued s, ?_, ?_⟩
  · intro hok
    refine List.flatMap_congr ?_
    intro e hmem
    obtain ⟨e', he', rfl⟩ := List.mem_map.1 hmem
    exact storedUdp_eq (hok e' he')
  · intro d ds hd id t a hcheck hfree len
    have hlist : (st.1.sockets s).udpData = d :: ds := (hcells.datagrams s).symm.trans hd
    obtain ⟨hquery, hreceive⟩ := receive_udp_eq hcheck hudp' hlist len
    refine ⟨?_, ?_⟩
    · simp [memStep, hfree, step, hquery, Memory.step, hcheck, hudp',
        hcells.receiveUdp_null hlist len]
    · intro hlen
      have hstep : ∃ σ', step st.1 (.receive id t true len) =
          some (σ', .received (d.cut len)) := by
        rw [step, hreceive hlen]
        exact ⟨_, rfl⟩
      obtain ⟨σ', hstep⟩ := hstep
      obtain ⟨m', hm'⟩ := memStep_of_step (x := (.receive id t true len, a)) ⟨cells, hcells⟩
        hstep hfree
      exact ⟨_, hm'⟩

/-- Slot 0 gets three datagrams in nodes here and there, of which it reads the first
only in part and the second as a whole. -/
def datagramOps : List (Op UInt8 × Addr) :=
  [(.create false 0 false, 0), (.connect 0 0xFAFB 0, 0), (.udpConnectAsync 0 0 true, 0),
    (.onRecvUdp 0 (some ⟨⟨0x7F000001, 53⟩, [1, 2, 3]⟩) true true, 7),
    (.onRecvUdp 0 (some ⟨⟨0x7F000002, 54⟩, [4]⟩) true true, 3), (.receive 0 0xFAFB true 2, 0),
    (.receive 0 0xFAFB false 0, 0), (.onRecvUdp 0 (some ⟨⟨0x7F000001, 53⟩, [5, 6]⟩) true true, 5),
    (.receive 0 0xFAFB true 16, 0)]

theorem udp_datagram_order_cut :
    ∃ firsts cells,
      [⟨⟨0x7F000001, 53⟩, [1, 2, 3]⟩, ⟨⟨0x7F000002, 54⟩, [4]⟩, ⟨⟨0x7F000001, 53⟩, [5, 6]⟩] =
        firsts ++ cells.map Prod.snd ∧
      List.Forall₂ (fun q d => q.2 = d.cut q.1)
        [(2, ⟨2, [1, 2], some ⟨0x7F000001, 53⟩⟩), (16, ⟨1, [4], some ⟨0x7F000002, 54⟩⟩)] firsts ∧
      Queued ((memMachine UInt8).stateOf datagramOps).2.nodes
        (((memMachine UInt8).stateOf datagramOps).2.udpData 0) cells := by
  have hexec : ((memMachine UInt8).exec (memMachine UInt8).init datagramOps).isSome = true := by
    decide +kernel
  have h0 : 0 < ((memMachine UInt8).traceOf datagramOps).length := by decide +kernel
  have hrun := Machine.run_exec hexec
  have hplain : ∀ op ∈ datagramOps.drop 1, op.1.mayEnd = false := by decide
  obtain ⟨firsts, cells, hstored, htaken, hqueued, -⟩ :=
    udp_datagram_order hrun (Machine.traceOf_split h0) (s := 0) rfl rfl (by
      intro e he hends
      have hmem := List.mem_map_of_mem (f := MemTrans.adapter) (List.mem_of_mem_drop he)
      have hend : e.act.1.mayEnd = true :=
        hends.mayEnd ((memMachine_refines hrun).1.step_of_mem hmem)
      rw [hplain _ (Machine.act_mem_of_mem_drop he)] at hend
      exact absurd hend Bool.false_ne_true)
  refine ⟨firsts, cells, ?_, ?_, hqueued⟩
  · rw [← hstored]
    decide +kernel
  · have hcalls : ((((memMachine UInt8).traceOf datagramOps).drop 1).map
        MemTrans.adapter).flatMap (takenUdp 0) =
        [(2, ⟨2, [1, 2], some ⟨0x7F000001, 53⟩⟩), (16, ⟨1, [4], some ⟨0x7F000002, 54⟩⟩)] := by
      decide +kernel
    rw [← hcalls]
    exact htaken

end Libuv
end LuatosPc
