import LuatosPc.Base.Linked
import LuatosPc.Network.Inbox

/-!
# The datagrams of the adapter in memory

`udp_data` of a slot is the head of a list of `uv_udp_data_t` nodes that are linked
by hand: `on_recv_udp` walks to the tail and links a new node there,
`libuv_socket_receive` moves the head on (and forgets the node), and
`libuv_socket_clean` frees all nodes.  In the adapter the datagrams of a slot are a
list; here is the memory behind it.

* `Node`, `Memory` — the nodes of all slots, and the head of each slot's list.
* `Memory.onRecvUdp`, `Memory.receiveUdp`, `Memory.clean` — what the source does to
  them; `none` is a pointer to no node, or a walk without an end.
* `Queued` — the list behind a head pointer: one node for each datagram.
* `Represents` — the memory holds the datagrams of the adapter, and no node is in two
  lists.
* `represents_step` — the memory follows the adapter through every action, and
  answers as the adapter does.
-/

namespace LuatosPc
namespace Libuv

open Linked Adapter

variable {β : Type}

/-- The address of a node. -/
abbrev Addr := Nat

/-- `uv_udp_data_t`; `sender` is its field `from`. -/
structure Node (β : Type) where
  sender : SockAddr
  next : Option Addr
  len : Nat
  data : List β

/-- A node apart from its pointer. -/
def Node.contents (n : Node β) : Nat × UdpData β := (n.len, ⟨n.sender, n.data⟩)

/-- A node for a datagram, as `on_recv_udp` fills it: linked to nothing. -/
def newNode (d : UdpData β) : Node β := ⟨d.addr, none, d.data.length, d.data⟩

/-- The nodes in memory, and `sockets[s].udp_data`. -/
structure Memory (β : Type) where
  nodes : Heap Addr (Node β)
  udpData : Slot → Option Addr

namespace Memory

/-- Before the first datagram. -/
def start : Memory β := ⟨∅, fun _ => none⟩

/-- Link the node at `a` behind the list that starts at `head`. -/
def append (nodes : Heap Addr (Node β)) (head : Option Addr) (a : Addr) :
    Option (Heap Addr (Node β) × Option Addr) :=
  match head with
  | none => some (nodes, some a)
  | some p => do
    let b ← last nodes.load Node.next nodes.keys.length p
    let n ← nodes.load b
    return (nodes.store b { n with next := some a }, some p)

/-- `on_recv_udp`.  `node` is what `luat_heap_malloc` returns. -/
def onRecvUdp (m : Memory β) (s : Slot) (d : Option (UdpData β)) (node : Option Addr) :
    Option (Memory β) :=
  match d with
  | none => some m
  | some d =>
    if d.data.length = 0 then some m
    else
      match node with
      | none => some m
      | some a => do
        let r ← append (m.nodes.store a (newNode d)) (m.udpData s) a
        return ⟨r.1, Function.update m.udpData s r.2⟩

/-- The UDP half of `libuv_socket_receive`.  More than a node's `data` cannot be
copied from it. -/
def receiveUdp (m : Memory β) (s : Slot) (buf : Bool) (len : UInt32) :
    Option (Memory β × Received β) :=
  if buf = false then
    match m.udpData s with
    | none => some (m, ⟨0, [], none⟩)
    | some p => do
      let n ← m.nodes.load p
      return (m, ⟨toCInt n.len, [], none⟩)
  else if len.toNat = 0 then some (m, ⟨0, [], none⟩)
  else do
    let p ← m.udpData s
    let n ← m.nodes.load p
    let k := if n.len < len.toNat then n.len else len.toNat
    if k ≤ n.data.length then
      return (⟨m.nodes, Function.update m.udpData s n.next⟩,
        ⟨toCInt k, n.data.take k, some n.sender⟩)
    else none

/-- One round of the loop of `libuv_socket_clean`. -/
def cleanOne (σ : Adapter β) (m : Memory β) (socketId : Int) : Option (Memory β) :=
  match slotOf socketId with
  | none => some m
  | some s =>
    if (σ.sockets s).tag = 0 ∨ (σ.sockets s).state = .closed then
      match m.udpData s with
      | none => some m
      | some head => do
        let nodes ← release Node.next m.nodes.keys.length m.nodes head
        return ⟨nodes, Function.update m.udpData s none⟩
    else some m

/-- `libuv_socket_clean`. -/
def clean : Adapter β → Memory β → List Int → Option (Memory β)
  | _, m, [] => some m
  | σ, m, id :: list => do
    let m ← m.cleanOne σ id
    clean (σ.cleanOne id) m list

/-- What an action does to the memory, and what it answers: the datagrams come from
the memory, everything else from the adapter, which answers `o`.  The heap returns
the block at `a`, if it returns one. -/
def step (σ : Adapter β) (m : Memory β) (a : Addr) (o : Answer β) :
    Op β → Option (Memory β × Answer β)
  | .onRecvUdp s d room _ =>
    (m.onRecvUdp s d (if room then some a else none)).map fun m => (m, o)
  | .receive id tag buf len =>
    match σ.checkSocketId id tag with
    | none => some (m, o)
    | some s =>
      if (σ.sockets s).isTcp then some (m, o)
      else (m.receiveUdp s buf len).map fun r => (r.1, .received r.2)
  | .clean list => (m.clean σ list).map fun m => (m, o)
  | _ => some (m, o)

end Memory

/-! ## The list behind a pointer -/

/-- A datagram as it lies in a node. -/
def inNode (c : Addr × UdpData β) : Addr × (Nat × UdpData β) := (c.1, c.2.data.length, c.2)

/-- From the pointer one meets nodes at these addresses, with these datagrams. -/
def Queued (nodes : Heap Addr (Node β)) (p : Option Addr) (cells : List (Addr × UdpData β)) :
    Prop :=
  Chain nodes.load Node.next Node.contents p (cells.map inNode)

theorem addrs_map_inNode (cells : List (Addr × UdpData β)) :
    addrs (cells.map inNode) = addrs cells := by
  simp [addrs, inNode, Function.comp_def]

section

variable {nodes nodes' : Heap Addr (Node β)} {p : Option Addr} {cells : List (Addr × UdpData β)}

theorem Queued.congr (h : Queued nodes p cells)
    (heq : ∀ a ∈ addrs cells, nodes'.load a = nodes.load a) : Queued nodes' p cells := by
  refine Chain.congr h ?_
  rw [addrs_map_inNode]
  exact heq

theorem Queued.mem_keys (h : Queued nodes p cells) {a : Addr} (ha : a ∈ addrs cells) :
    a ∈ nodes.keys := by
  rw [← addrs_map_inNode] at ha
  obtain ⟨n, hn⟩ := h.load_of_mem ha
  exact Heap.mem_keys_of_load hn

/-- The first node holds the first datagram, and leads to the others. -/
theorem Queued.head {a : Addr} {d : UdpData β} (h : Queued nodes p ((a, d) :: cells)) :
    ∃ n, p = some a ∧ nodes.load a = some n ∧ n.len = d.data.length ∧ n.sender = d.addr ∧
      n.data = d.data ∧ Queued nodes n.next cells := by
  unfold Queued at h
  rw [List.map_cons] at h
  generalize hx : inNode (a, d) = x at h
  cases h with
  | @cons b n _ hload hrest =>
    simp only [inNode, Node.contents, Prod.mk.injEq] at hx
    obtain ⟨rfl, hlen, rfl⟩ := hx
    exact ⟨n, rfl, hload, hlen.symm, rfl, rfl, hrest⟩

theorem Queued.eq_none_iff (h : Queued nodes p cells) : p = none ↔ cells = [] := by
  cases cells with
  | nil =>
    cases h
    simp
  | cons c cells =>
    obtain ⟨n, rfl, -⟩ := h.head
    simp

/-- **Appending** a node at an address that is not in use. -/
theorem append_spec (h : Queued nodes p cells) {a : Addr} (ha : a ∉ nodes.keys) (d : UdpData β) :
    ∃ nodes' p', Memory.append (nodes.store a (newNode d)) p a = some (nodes', p') ∧
      Queued nodes' p' (cells ++ [(a, d)]) ∧
      ∀ b, b ≠ a → b ∉ addrs cells → nodes'.load b = nodes.load b := by
  have hother : ∀ b, b ≠ a → (nodes.store a (newNode d)).load b = nodes.load b :=
    fun b hb => Heap.load_store_of_ne nodes _ hb
  have hnew : (nodes.store a (newNode d)).load a = some (newNode d) := Heap.load_store_self _ _ _
  have hfresh : a ∉ addrs cells := fun hmem => ha (h.mem_keys hmem)
  have hold : Queued (nodes.store a (newNode d)) p cells :=
    h.congr fun b hb => hother b fun heq => hfresh (heq ▸ hb)
  generalize nodes.store a (newNode d) = nodes₁ at hother hnew hold
  cases p with
  | none =>
    -- the list was empty
    obtain rfl := hold.eq_none_iff.1 rfl
    exact ⟨nodes₁, some a, rfl, .cons hnew .nil, fun b hb _ => hother b hb⟩
  | some q =>
    rw [← addrs_map_inNode] at hfresh
    obtain ⟨b, n, hlast, hn, hlinked, hkeep⟩ := hold.link_last
      (fun n p => { n with next := p }) (fun _ _ => rfl) (fun _ _ => rfl) hnew rfl hfresh
    refine ⟨nodes₁.store b { n with next := some a }, some q, ?_, ?_, ?_⟩
    · simp [Memory.append, hlast, hn]
    · unfold Queued
      rw [List.map_append]
      exact hlinked
    · intro c hca hc
      rw [← addrs_map_inNode] at hc
      rw [hkeep c hc, hother c hca]

end

/-! ## The memory follows the adapter -/

/-- The memory holds the datagrams of every slot, and no node is in two lists. -/
structure Represents (σ : Adapter β) (m : Memory β) (cells : Slot → List (Addr × UdpData β)) :
    Prop where
  queued : ∀ s, Queued m.nodes (m.udpData s) (cells s)
  datagrams : ∀ s, (cells s).map Prod.snd = (σ.sockets s).udpData
  apart : ∀ s s', s ≠ s' → (addrs (cells s)).Disjoint (addrs (cells s'))

namespace Represents

variable {σ σ' : Adapter β} {m m' : Memory β} {cells : Slot → List (Addr × UdpData β)}

theorem start : Represents (Adapter.start : Adapter β) .start fun _ => [] :=
  ⟨fun _ => .nil, fun _ => rfl, fun _ _ _ => List.disjoint_nil_left _⟩

/-- The rest of the adapter may change. -/
theorem of_udpData (h : Represents σ m cells)
    (heq : ∀ s, (σ'.sockets s).udpData = (σ.sockets s).udpData) : Represents σ' m cells :=
  ⟨h.queued, fun s => (h.datagrams s).trans (heq s).symm, h.apart⟩

/-- **One list changes.**  It may use new nodes and its own, and the nodes of the
other lists stay as they are. -/
theorem replace (h : Represents σ m cells) {s : Slot} {l : List (Addr × UdpData β)}
    (hnew : Queued m'.nodes (m'.udpData s) l)
    (hdata : l.map Prod.snd = (σ'.sockets s).udpData)
    (haddrs : ∀ a ∈ addrs l, a ∈ addrs (cells s) ∨ a ∉ m.nodes.keys)
    (hheads : ∀ s', s' ≠ s → m'.udpData s' = m.udpData s')
    (hlists : ∀ s', s' ≠ s → (σ'.sockets s').udpData = (σ.sockets s').udpData)
    (hnodes : ∀ b ∈ m.nodes.keys, b ∉ addrs (cells s) → m'.nodes.load b = m.nodes.load b) :
    Represents σ' m' (Function.update cells s l) := by
  have hdisjoint : ∀ s', s' ≠ s → (addrs l).Disjoint (addrs (cells s')) := by
    intro s' hs' a ha ha'
    rcases haddrs a ha with hmem | hfree
    · exact h.apart s s' (Ne.symm hs') hmem ha'
    · exact hfree ((h.queued s').mem_keys ha')
  refine ⟨?_, ?_, ?_⟩
  · intro s'
    by_cases hs' : s' = s
    · subst hs'
      rw [Function.update_self]
      exact hnew
    · rw [Function.update_of_ne hs', hheads s' hs']
      refine (h.queued s').congr ?_
      intro b hb
      exact hnodes b ((h.queued s').mem_keys hb) fun hmem => h.apart s' s hs' hb hmem
  · intro s'
    by_cases hs' : s' = s
    · subst hs'
      rw [Function.update_self]
      exact hdata
    · rw [Function.update_of_ne hs', hlists s' hs']
      exact h.datagrams s'
  · intro s₁ s₂ hne
    by_cases h₁ : s₁ = s
    · subst h₁
      rw [Function.update_self, Function.update_of_ne (Ne.symm hne)]
      exact hdisjoint s₂ (Ne.symm hne)
    · by_cases h₂ : s₂ = s
      · subst h₂
        rw [Function.update_self, Function.update_of_ne h₁]
        exact (hdisjoint s₁ h₁).symm
      · rw [Function.update_of_ne h₁, Function.update_of_ne h₂]
        exact h.apart s₁ s₂ hne

/-- The list of a slot is empty if its head is `NULL`. -/
theorem udpData_eq_none_iff (h : Represents σ m cells) (s : Slot) :
    m.udpData s = none ↔ (σ.sockets s).udpData = [] := by
  rw [(h.queued s).eq_none_iff, ← h.datagrams s, List.map_eq_nil_iff]

/-- **`on_recv_udp`** puts the datagram where the adapter has it. -/
theorem onRecvUdp (h : Represents σ m cells) (s : Slot) (d : Option (UdpData β)) {a : Addr}
    (ha : a ∉ m.nodes.keys) (room posted : Bool) :
    ∃ m', m.onRecvUdp s d (if room then some a else none) = some m' ∧
      ∃ cells', Represents (σ.onRecvUdp s d room posted) m' cells' := by
  cases d with
  | none => exact ⟨m, rfl, cells, h⟩
  | some d =>
    simp only [Memory.onRecvUdp, Adapter.onRecvUdp]
    split
    · exact ⟨m, rfl, cells, h⟩
    · cases room with
      | false => exact ⟨m, rfl, cells, h⟩
      | true =>
        obtain ⟨nodes', p', happend, hqueued, hkeep⟩ := append_spec (h.queued s) ha d
        refine ⟨⟨nodes', Function.update m.udpData s p'⟩, by simp [happend], _,
          h.replace (s := s) (l := cells s ++ [(a, d)]) ?_ ?_ ?_ ?_ ?_ ?_⟩
        · simpa only [Function.update_self] using hqueued
        · rw [List.map_append, h.datagrams s, if_pos rfl, cbToNwTask_sockets, modify_sockets,
            if_pos rfl]
          rfl
        · intro b hb
          rw [addrs_append, List.mem_append] at hb
          rcases hb with hb | hb
          · exact Or.inl hb
          · exact Or.inr (List.mem_singleton.1 hb ▸ ha)
        · intro s' hs'
          exact Function.update_of_ne hs' _ _
        · intro s' hs'
          rw [if_pos rfl, cbToNwTask_sockets, modify_sockets, if_neg hs']
        · intro b hb hmem
          exact hkeep b (fun heq => ha (heq ▸ hb)) hmem

/-- **The UDP half of `libuv_socket_receive`** hands out what the adapter hands out. -/
theorem receiveUdp (h : Represents σ m cells) {s : Slot} {buf : Bool} {len : UInt32}
    {r : Received β} (hrec : σ.receiveUdp s buf len = some (σ', r)) :
    ∃ m', m.receiveUdp s buf len = some (m', r) ∧ ∃ cells', Represents σ' m' cells' := by
  have hdata := h.datagrams s
  have hqueued := h.queued s
  simp only [Adapter.receiveUdp, ← hdata] at hrec
  cases hcells : cells s with
  | nil =>
    rw [hcells] at hqueued hrec
    have hnull : m.udpData s = none := hqueued.eq_none_iff.2 rfl
    simp only [List.map_nil] at hrec
    split at hrec
    · cases hrec
      exact ⟨m, by simp_all [Memory.receiveUdp], cells, h⟩
    · split at hrec
      · cases hrec
        exact ⟨m, by simp_all [Memory.receiveUdp], cells, h⟩
      · exact absurd hrec (by simp)
  | cons c rest =>
    obtain ⟨a, d⟩ := c
    rw [hcells] at hqueued hrec
    obtain ⟨n, hhead, hn, hlen, hsender, hbytes, hrest⟩ := hqueued.head
    simp only [List.map_cons] at hrec
    split at hrec
    · cases hrec
      exact ⟨m, by simp_all [Memory.receiveUdp], cells, h⟩
    · split at hrec
      · cases hrec
        exact ⟨m, by simp_all [Memory.receiveUdp], cells, h⟩
      · -- the head moves on to the next node
        rename_i hbuf hzero
        cases hrec
        have hfits : (if d.data.length < len.toNat then d.data.length else len.toNat) ≤
            d.data.length := by
          split <;> omega
        refine ⟨⟨m.nodes, Function.update m.udpData s n.next⟩, ?_, _,
          h.replace (s := s) (l := rest) ?_ ?_ ?_ ?_ ?_ ?_⟩
        · simp [Memory.receiveUdp, hbuf, hzero, hhead, hn, hlen, hsender, hbytes, hfits]
        · simpa only [Function.update_self] using hrest
        · rw [modify_sockets, if_pos rfl]
        · intro b hb
          exact Or.inl (by simp [hcells, hb])
        · intro s' hs'
          exact Function.update_of_ne hs' _ _
        · intro s' hs'
          rw [modify_sockets, if_neg hs']
        · intro b _ _
          rfl

/-- **One round of `libuv_socket_clean`** frees a whole list. -/
theorem cleanOne (h : Represents σ m cells) (id : Int) :
    ∃ m', m.cleanOne σ id = some m' ∧ ∃ cells', Represents (σ.cleanOne id) m' cells' := by
  unfold Memory.cleanOne Adapter.cleanOne
  cases slotOf id with
  | none => exact ⟨m, rfl, cells, h⟩
  | some s =>
    dsimp only
    split
    · rename_i hrel
      have hlists : ∀ s', s' ≠ s →
          ((σ.modify s UvConn.reset).sockets s').udpData = (σ.sockets s').udpData := by
        intro s' hs'
        rw [modify_sockets, if_neg hs']
      have hempty : ((σ.modify s UvConn.reset).sockets s).udpData = [] := by
        rw [modify_sockets, if_pos rfl]
        rfl
      split
      · -- there is nothing to free
        rename_i hnull
        refine ⟨m, rfl, cells, h.of_udpData ?_⟩
        intro s'
        by_cases hs' : s' = s
        · subst hs'
          rw [hempty, (h.udpData_eq_none_iff s').1 hnull]
        · exact hlists s' hs'
      · rename_i head hhead
        have hqueued := h.queued s
        rw [hhead] at hqueued
        obtain ⟨nodes', hrelease, hkeep⟩ := hqueued.release_spec hqueued.length_le
        rw [addrs_map_inNode] at hkeep
        refine ⟨⟨nodes', Function.update m.udpData s none⟩, by simp [hrelease], _,
          h.replace (s := s) (l := []) ?_ ?_ ?_ ?_ hlists ?_⟩
        · have hnil : Queued nodes' none [] := .nil
          simpa only [Function.update_self] using hnil
        · exact hempty.symm
        · intro b hb
          exact absurd hb List.not_mem_nil
        · intro s' hs'
          exact Function.update_of_ne hs' _ _
        · intro b _ hmem
          exact hkeep b hmem
    · exact ⟨m, rfl, cells, h⟩

theorem clean (h : Represents σ m cells) (list : List Int) :
    ∃ m', m.clean σ list = some m' ∧ ∃ cells', Represents (σ.libuvSocketClean list) m' cells' := by
  induction list generalizing σ m cells with
  | nil => exact ⟨m, rfl, cells, h⟩
  | cons id list ih =>
    obtain ⟨m₁, hone, cells₁, h₁⟩ := h.cleanOne id
    obtain ⟨m₂, hrest, cells₂, h₂⟩ := ih h₁
    exact ⟨m₂, by simp [Memory.clean, hone, hrest], cells₂, h₂⟩

end Represents

/-- The actions in which datagrams are put, taken or thrown away. -/
def Op.concernsUdp : Op β → Bool
  | .receive .. | .clean _ | .onRecvUdp .. => true
  | _ => false

/-- Any other action leaves the datagrams of all slots alone. -/
theorem step_udpData {σ σ' : Adapter β} {op : Op β} {o : Answer β}
    (h : step σ op = some (σ', o)) (hop : op.concernsUdp = false) (s : Slot) :
    (σ'.sockets s).udpData = (σ.sockets s).udpData := by
  by_cases hq : NoTraffic σ s op
  · exact congrArg Rx.udpData (step_rx_of_noTraffic h hq)
  obtain ⟨b, bs, room, posted, rfl⟩ | ⟨d, room, posted, rfl⟩ | ⟨id, tag, len, rfl, -⟩ |
    ⟨list, rfl, -⟩ := traffic_cases hq
  · -- bytes have a buffer of their own
    obtain ⟨-, rfl, -⟩ := step_onRecv_eq_some h
    exact (inbox_onRecv σ s b bs room posted).2
  · exact absurd hop (by simp [Op.concernsUdp])
  · exact absurd hop (by simp [Op.concernsUdp])
  · exact absurd hop (by simp [Op.concernsUdp])

/-- A receive on a TCP socket does so, too. -/
theorem udpData_receive_of_isTcp {σ σ' : Adapter β} {s : Slot} {id : Int} {tag : UInt64}
    {buf : Bool} {len : UInt32} {r : Received β} (hcheck : σ.checkSocketId id tag = some s)
    (htcp : (σ.sockets s).isTcp = true)
    (h : σ.libuvSocketReceive id tag buf len = some (σ', r)) (s' : Slot) :
    (σ'.sockets s').udpData = (σ.sockets s').udpData := by
  obtain ⟨rfl, -⟩ | ⟨s₁, n, -, -, -, -, rfl⟩ | ⟨s₁, d, ds, n, hcheck', hudp, -⟩ :=
    libuvSocketReceive_cases h
  · rfl
  · rw [modify_sockets]
    split
    · rename_i heq
      rw [heq]
      rfl
    · rfl
  · rw [hcheck, Option.some.injEq] at hcheck'
    rw [← hcheck', htcp] at hudp
    exact absurd hudp (by simp)

/-- **The memory follows the adapter**: whatever action the adapter makes, the code on
the nodes runs without a fault, gives the same answer, and leaves behind the datagrams
that the adapter then has. -/
theorem represents_step {σ σ' : Adapter β} {m : Memory β} {op : Op β} {o : Answer β} {a : Addr}
    (h : ∃ cells, Represents σ m cells) (hstep : step σ op = some (σ', o))
    (ha : a ∉ m.nodes.keys) :
    ∃ m', m.step σ a o op = some (m', o) ∧ ∃ cells', Represents σ' m' cells' := by
  obtain ⟨cells, h⟩ := h
  by_cases hop : op.concernsUdp = false
  · refine ⟨m, ?_, cells, h.of_udpData (step_udpData hstep hop)⟩
    cases op <;> first | rfl | exact absurd hop (by simp [Op.concernsUdp])
  cases op with
  | receive id tag buf len =>
    simp only [step, Option.map_eq_some_iff, Prod.mk.injEq] at hstep
    obtain ⟨⟨τ, r⟩, hrec, rfl, rfl⟩ := hstep
    cases hcheck : σ.checkSocketId id tag with
    | none =>
      simp only [libuvSocketReceive, hcheck, Option.some.injEq, Prod.mk.injEq] at hrec
      obtain ⟨rfl, -⟩ := hrec
      exact ⟨m, by simp [Memory.step, hcheck], cells, h⟩
    | some s =>
      cases htcp : (σ.sockets s).isTcp with
      | true => exact ⟨m, by simp [Memory.step, hcheck, htcp], cells,
          h.of_udpData (udpData_receive_of_isTcp hcheck htcp hrec)⟩
      | false =>
        simp only [libuvSocketReceive, hcheck, htcp, Bool.false_eq_true, if_false] at hrec
        obtain ⟨m', hmem, cells', h'⟩ := h.receiveUdp hrec
        exact ⟨m', by simp [Memory.step, hcheck, htcp, hmem], cells', h'⟩
  | clean list =>
    cases hstep
    obtain ⟨m', hclean, cells', h'⟩ := h.clean list
    exact ⟨m', by simp [Memory.step, hclean], cells', h'⟩
  | onRecvUdp s d room posted =>
    obtain ⟨-, rfl, -⟩ := step_onRecvUdp_eq_some hstep
    obtain ⟨m', hrecv, cells', h'⟩ := h.onRecvUdp s d ha room posted
    exact ⟨m', by simp [Memory.step, hrecv], cells', h'⟩
  | _ => exact absurd rfl hop

end Libuv
end LuatosPc
