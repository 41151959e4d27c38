import LuatosPc.Base.Bytes
import LuatosPc.Base.Linked

/-!
# The queue of the rtos layer

The model of `luat_queue_pc.c`: a singly linked list of items whose payload lies
behind the last field of the struct, `char msg[4]`.  An item is allocated with
`sizeof(uv_queue_item_t)` bytes and as many as the payload has; the first four
bytes of the payload share the struct's own, and with pointers of eight bytes so
do the four bytes of padding behind them.

* `PtrSize`, `offsetofMsg`, `sizeofItem` — the layout of the struct.
* `Item`, `Mem` — an item in memory: its two fields, and the bytes of its
  allocation from `msg` on.
* `luatQueuePush`, `luatQueuePop` — the functions of the source; `Fault` — a copy
  outside a block, or a walk that meets no end.
* `newItem`, `sendItem`, `popPayload` — how the callers make items, send and
  receive; `Carries` — what an item then holds.
* `Linked`, `push_spec`, `pop_spec` — the list behind a queue, and what the two
  functions do to it.
* `Shape` — a queue together with the buffers that receivers pop into, and how it
  changes: `Shape.send`, `Shape.begin`, `Shape.receive`, `Shape.finish`.
-/

namespace LuatosPc.Rtos

open LuatosPc.Bytes LuatosPc.Linked

/-- `sizeof(void*)`, which is also `sizeof(size_t)`. -/
inductive PtrSize
  | four
  | eight
  deriving DecidableEq, Repr

def PtrSize.bytes : PtrSize → Nat
  | four => 4
  | eight => 8

/-- The address of a block. -/
abbrev Addr := Nat

/-- A thread. -/
abbrev Thread := Nat

/-- `uv_queue_item_t` in memory: `next`, `size`, and the bytes of the allocation
from `msg` to its end. -/
structure Item where
  next : Option Addr
  size : Nat
  msg : Block
  deriving DecidableEq, Repr

/-- An item apart from its pointer. -/
def Item.contents (it : Item) : Nat × Block := (it.size, it.msg)

/-- Memory, as far as it holds items. -/
abbrev Mem := Heap Addr Item

/-- What a C program must not do. -/
inductive Fault
  /-- A pointer to no block is followed, or a loop over a list never ends. -/
  | lost
  /-- Bytes outside a block are read or written. -/
  | outside
  deriving DecidableEq, Repr

section

variable (w : PtrSize)

/-- `offsetof(uv_queue_item_t, msg)`. -/
def offsetofMsg : Nat := 2 * w.bytes

/-- `sizeof(uv_queue_item_t)`: two words and four bytes, rounded up to words. -/
def sizeofItem : Nat := (offsetofMsg w + 4 + (w.bytes - 1)) / w.bytes * w.bytes

/-- The number of bytes of an allocation. -/
def Item.allocated (it : Item) : Nat := offsetofMsg w + it.msg.length

/-- A load through a pointer. -/
def load (h : Mem) (a : Addr) : Except Fault Item :=
  match h.load a with
  | none => .error .lost
  | some it => .ok it

/-- `memcpy(dst, src, n)` of items, for `n` that covers the two fields. -/
def copyItem (dst src : Item) (n : Nat) : Except Fault Item :=
  if n ≤ src.allocated w ∧ n ≤ dst.allocated w then
    .ok ⟨src.next, src.size,
      src.msg.take (n - offsetofMsg w) ++ dst.msg.drop (n - offsetofMsg w)⟩
  else .error .outside

/-- `luat_queue_push`.  A walk of more rounds than there are blocks never ends. -/
def luatQueuePush (h : Mem) (queue item : Option Addr) : Except Fault (Mem × Int) :=
  match queue, item with
  | some queue, some item =>
    match last h.load Item.next h.keys.length queue with
    | none => .error .lost
    | some head => do
      let it ← load h head
      return (h.store head { it with next := some item }, 0)
  | _, _ => .ok (h, -1)

/-- `luat_queue_pop`. -/
def luatQueuePop (h : Mem) (queue item : Option Addr) : Except Fault (Mem × Int) :=
  match queue, item with
  | some queue, some item => do
    let q ← load h queue
    match q.next with
    | none => return (h, -1)
    | some head =>
      let src ← load h head
      let dst ← load h item
      let dst ← copyItem w dst src (src.size + sizeofItem w - 4)
      let h := h.store item dst
      let src ← load h head
      let q ← load h queue
      -- both branches of the test on `head->next` store it
      let h := h.store queue { q with next := src.next }
      return (h.free head, 0)
  | _, _ => .ok (h, -1)

/-- A new item with a payload, as all senders make it: cleared as far as the
struct goes, then the payload from `msg` on, then its size. -/
def newItem (payload : List UInt8) (junk : Nat → UInt8) : Except Fault Item :=
  let msg := alloc (sizeofItem w + payload.length - offsetofMsg w) junk
  match (store msg 0 (List.replicate (sizeofItem w - offsetofMsg w) 0)).bind
      (store · 0 payload) with
  | none => .error .outside
  | some msg => .ok ⟨none, payload.length, msg⟩

/-- A buffer that a receiver of payloads of `n` bytes allocates. -/
def newBuffer (n : Nat) (fields : Option Addr × Nat) (junk : Nat → UInt8) : Item :=
  ⟨fields.1, fields.2, alloc (sizeofItem w + n - offsetofMsg w) junk⟩

/-- How all senders put a payload on a queue.  The heap returns the block at `addr`. -/
def sendItem (h : Mem) (queue : Addr) (payload : List UInt8) (addr : Addr)
    (junk : Nat → UInt8) : Except Fault (Mem × Int) := do
  let item ← newItem w payload junk
  luatQueuePush (h.store addr item) (some queue) (some addr)

/-- How all receivers try for a payload of `n` bytes: pop an item, and if there is
one copy the bytes from `msg` on. -/
def popPayload (n : Nat) (h : Mem) (queue : Addr) (item : Option Addr) :
    Except Fault (Mem × Option (List UInt8)) := do
  let (h, ret) ← luatQueuePop w h (some queue) item
  match ret, item with
  | 0, some item =>
    let it ← load h item
    if n ≤ it.msg.length then return (h, some (it.msg.take n)) else throw .outside
  | _, _ => return (h, none)

/-- An item holds a payload, in an allocation of the right size. -/
structure Carries (x : Nat × Block) (payload : List UInt8) : Prop where
  size : x.1 = payload.length
  length : x.2.length = sizeofItem w - offsetofMsg w + payload.length
  bytes : x.2.take payload.length = payload

end

variable {w : PtrSize}

theorem offsetofMsg_add_four_le (w : PtrSize) : offsetofMsg w + 4 ≤ sizeofItem w := by
  cases w <;> decide

theorem newItem_carries (w : PtrSize) (payload : List UInt8) (junk : Nat → UInt8) :
    ∃ it, newItem w payload junk = .ok it ∧ it.next = none ∧ Carries w it.contents payload := by
  have hoff := offsetofMsg_add_four_le w
  set b := alloc (sizeofItem w + payload.length - offsetofMsg w) junk with hb
  have hlen : b.length = sizeofItem w + payload.length - offsetofMsg w := length_alloc _ _
  have hzeros : 0 + (List.replicate (sizeofItem w - offsetofMsg w) (0 : UInt8)).length ≤
      b.length := by
    rw [List.length_replicate]
    omega
  set z := overwrite b 0 (List.replicate (sizeofItem w - offsetofMsg w) 0) with hz
  have hzlen : z.length = b.length := length_overwrite hzeros
  have hpayload : 0 + payload.length ≤ z.length := by omega
  refine ⟨⟨none, payload.length, overwrite z 0 payload⟩, ?_, rfl, rfl, ?_, ?_⟩
  · unfold newItem
    rw [← hb]
    dsimp only
    rw [store_of_le hzeros, Option.bind_some, ← hz, store_of_le hpayload]
  · show List.length (overwrite z 0 payload) = _
    rw [length_overwrite hpayload]
    omega
  · show List.take payload.length (overwrite z 0 payload) = payload
    have htake : (overwrite z 0 payload).take (0 + payload.length) = z.take 0 ++ payload :=
      take_overwrite_add (Nat.zero_le z.length)
    simpa using htake

/-! ## The list behind a queue -/

/-- The items that are linked from a queue, with their contents. -/
def Linked (h : Mem) (q : Addr) (items : List (Addr × (Nat × Block))) : Prop :=
  ∃ d, Chain h.load Item.next Item.contents (some q) ((q, d) :: items)

section

variable {h : Mem} {q i : Addr} {items : List (Addr × (Nat × Block))}

theorem load_eq_ok {a : Addr} {it : Item} (ha : h.load a = some it) : load h a = .ok it := by
  simp [load, ha]

/-- The addresses of the items, and that of the queue, are all different. -/
theorem Linked.nodup (hq : Linked h q items) : (q :: addrs items).Nodup := by
  obtain ⟨d, hd⟩ := hq
  exact hd.nodup

theorem Linked.mem_keys (hq : Linked h q items) {a : Addr} (ha : a ∈ q :: addrs items) :
    a ∈ h.keys := by
  obtain ⟨d, hd⟩ := hq
  obtain ⟨v, hv⟩ := hd.load_of_mem (a := a) ha
  exact Heap.mem_keys_of_load hv

/-- Memory may change elsewhere. -/
theorem Linked.congr {h' : Mem} (hq : Linked h q items)
    (heq : ∀ a ∈ q :: addrs items, h'.load a = h.load a) : Linked h' q items := by
  obtain ⟨d, hd⟩ := hq
  exact ⟨d, hd.congr heq⟩

/-- **What a push does**: it links the item behind the last one. -/
theorem push_spec {it : Item} (hq : Linked h q items) (hi : h.load i = some it)
    (hnext : it.next = none) (hfresh : i ∉ q :: addrs items) :
    ∃ h', luatQueuePush h (some q) (some i) = .ok (h', 0) ∧
      Linked h' q (items ++ [(i, it.contents)]) ∧
      (∀ a, a ∉ q :: addrs items → h'.load a = h.load a) := by
  obtain ⟨d, hd⟩ := hq
  -- the last node may be the queue itself
  obtain ⟨b, v, hlast, hv, hlinked, hkeep⟩ := hd.link_last
    (fun v p => { v with next := p }) (fun _ _ => rfl) (fun _ _ => rfl) hi hnext hfresh
  refine ⟨h.store b { v with next := some i }, ?_, ⟨d, hlinked⟩, hkeep⟩
  simp only [luatQueuePush, hlast, load_eq_ok hv]
  rfl

/-- There is nothing to pop. -/
theorem pop_empty (hq : Linked h q []) (i : Addr) :
    luatQueuePop w h (some q) (some i) = .ok (h, -1) := by
  obtain ⟨d, hd⟩ := hq
  cases hd with
  | @cons _ v _ hv hrest =>
    have hnext : v.next = none := by
      generalize v.next = p at hrest
      cases hrest
      rfl
    simp only [luatQueuePop, load_eq_ok hv, hnext, bind, Except.bind]
    rfl

/-- **What a pop does**: it copies the first item to the buffer and takes it off the
list.  Both the item and the buffer have to have room for what is copied. -/
theorem pop_spec {a : Addr} {x : Nat × Block} {dst : Item}
    (hq : Linked h q ((a, x) :: items)) (hi : h.load i = some dst)
    (hfresh : i ∉ q :: addrs ((a, x) :: items))
    (hsrc : x.1 + sizeofItem w - 4 ≤ offsetofMsg w + x.2.length)
    (hdst : x.1 + sizeofItem w - 4 ≤ offsetofMsg w + dst.msg.length) :
    ∃ h' dst', luatQueuePop w h (some q) (some i) = .ok (h', 0) ∧ Linked h' q items ∧
      h'.load i = some dst' ∧
      dst'.msg = x.2.take (x.1 + sizeofItem w - 4 - offsetofMsg w) ++
        dst.msg.drop (x.1 + sizeofItem w - 4 - offsetofMsg w) ∧
      (∀ b, b ∉ [q, a, i] → h'.load b = h.load b) := by
  have hnodup := hq.nodup
  obtain ⟨d, hd⟩ := hq
  cases hd with
  | @cons _ vq _ hvq hrest =>
    generalize hnext : vq.next = p at hrest
    cases hrest with
    | @cons _ va _ hva htail =>
      simp only [addrs_cons, List.mem_cons, not_or, List.nodup_cons] at hfresh hnodup
      obtain ⟨hiq, hia, hin⟩ := hfresh
      obtain ⟨⟨hqa, hqn⟩, han, -⟩ := hnodup
      set dst' : Item := ⟨va.next, va.size,
        va.msg.take (va.size + sizeofItem w - 4 - offsetofMsg w) ++
          dst.msg.drop (va.size + sizeofItem w - 4 - offsetofMsg w)⟩ with hdst'
      have hcopy : copyItem w dst va (va.size + sizeofItem w - 4) = .ok dst' :=
        if_pos ⟨hsrc, hdst⟩
      have hva' : (h.store i dst').load a = some va :=
        (Heap.load_store_of_ne _ _ (Ne.symm hia)).trans hva
      have hvq' : (h.store i dst').load q = some vq :=
        (Heap.load_store_of_ne _ _ (Ne.symm hiq)).trans hvq
      -- what stands where afterwards
      set h' := ((h.store i dst').store q { vq with next := va.next }).free a with hh'
      have hload : ∀ b, b ∉ [q, a, i] → h'.load b = h.load b := by
        intro b hb
        simp only [List.mem_cons, List.not_mem_nil, or_false, not_or] at hb
        rw [hh', Heap.load_free_of_ne _ hb.2.1, Heap.load_store_of_ne _ _ hb.1,
          Heap.load_store_of_ne _ _ hb.2.2]
      refine ⟨h', dst', ?_, ⟨({ vq with next := va.next } : Item).contents, ?_⟩, ?_, rfl, hload⟩
      · simp only [luatQueuePop, load_eq_ok hvq, hnext, load_eq_ok hva, load_eq_ok hi, bind,
          Except.bind, hcopy, load_eq_ok hva', load_eq_ok hvq']
        rfl
      · have hq' : h'.load q = some { vq with next := va.next } := by
          rw [hh', Heap.load_free_of_ne _ hqa, Heap.load_store_self]
        refine .cons hq' (htail.congr ?_)
        intro b hb
        refine hload b ?_
        simp only [List.mem_cons, List.not_mem_nil, or_false, not_or]
        exact ⟨fun heq => hqn (heq ▸ hb), fun heq => han (heq ▸ hb), fun heq => hin (heq ▸ hb)⟩
      · rw [hh', Heap.load_free_of_ne _ hia, Heap.load_store_of_ne _ _ hiq, Heap.load_store_self]

end

/-! ## A queue and its receivers -/

/-- A queue with its items, and for each thread that is about to receive from it
the buffer it pops into and the number of payload bytes the buffer is made for. -/
structure Shape (w : PtrSize) (h : Mem) (q : Addr) (bufs : Thread → Option (Addr × Nat))
    (items : List (Addr × (Nat × Block))) : Prop where
  linked : Linked h q items
  /-- A buffer is a block of its own. -/
  buffer : ∀ t a n, bufs t = some (a, n) → a ∉ q :: addrs items ∧
    ∃ it, h.load a = some it ∧ it.msg.length = sizeofItem w + n - offsetofMsg w
  /-- No two threads share one. -/
  apart : ∀ t t' a n n', bufs t = some (a, n) → bufs t' = some (a, n') → t = t'

namespace Shape

variable {h : Mem} {q a : Addr} {bufs : Thread → Option (Addr × Nat)} {t : Thread} {n : Nat}
  {items : List (Addr × (Nat × Block))}

theorem fresh (hs : Shape w h q bufs items) (ha : h.load a = none) :
    a ∉ q :: addrs items ∧ ∀ t n, bufs t ≠ some (a, n) := by
  rw [Heap.load_eq_none_iff] at ha
  refine ⟨fun hmem => ha (hs.linked.mem_keys hmem), fun t n hb => ?_⟩
  obtain ⟨-, it, hit, -⟩ := hs.buffer t a n hb
  exact ha (Heap.mem_keys_of_load hit)

/-- An item in a fresh block is pushed. -/
theorem push (hs : Shape w h q bufs items) (ha : h.load a = none) {it : Item}
    (hnext : it.next = none) :
    ∃ h', luatQueuePush (h.store a it) (some q) (some a) = .ok (h', 0) ∧
      Shape w h' q bufs (items ++ [(a, it.contents)]) := by
  obtain ⟨hfresh, hbuf⟩ := hs.fresh ha
  have hlinked : Linked (h.store a it) q items := hs.linked.congr fun b hb =>
    Heap.load_store_of_ne _ _ fun heq => hfresh (heq ▸ hb)
  obtain ⟨h', hpush, hlinked', hframe⟩ := push_spec hlinked (Heap.load_store_self _ _ _) hnext hfresh
  refine ⟨h', hpush, hlinked', ?_, hs.apart⟩
  intro t b n hb
  obtain ⟨hnot, dst, hdst, hlen⟩ := hs.buffer t b n hb
  have hne : b ≠ a := fun heq => hbuf t n (heq ▸ hb)
  refine ⟨?_, dst, ?_, hlen⟩
  · simp only [addrs_append, addrs_cons, addrs_nil, List.mem_cons, List.mem_append,
      List.not_mem_nil, or_false, not_or] at hnot ⊢
    exact ⟨hnot.1, hnot.2, hne⟩
  · rw [hframe b hnot, Heap.load_store_of_ne _ _ hne, hdst]

/-- **What a sender does**: its payload stands behind the others. -/
theorem send (hs : Shape w h q bufs items) (ha : h.load a = none) (payload : List UInt8)
    (junk : Nat → UInt8) :
    ∃ h' x, sendItem w h q payload a junk = .ok (h', 0) ∧ Carries w x payload ∧
      Shape w h' q bufs (items ++ [(a, x)]) := by
  obtain ⟨it, hit, hnext, hcarries⟩ := newItem_carries w payload junk
  obtain ⟨h', hpush, hshape⟩ := hs.push ha hnext
  refine ⟨h', it.contents, ?_, hcarries, hshape⟩
  simp only [sendItem, hit, bind, Except.bind]
  exact hpush

/-- A thread allocates a buffer. -/
theorem begin (hs : Shape w h q bufs items) (ha : h.load a = none) {it : Item}
    (hlen : it.msg.length = sizeofItem w + n - offsetofMsg w) :
    Shape w (h.store a it) q (Function.update bufs t (some (a, n))) items := by
  obtain ⟨hfresh, hbuf⟩ := hs.fresh ha
  refine ⟨hs.linked.congr fun b hb => Heap.load_store_of_ne _ _ fun heq => hfresh (heq ▸ hb), ?_, ?_⟩
  · intro t' b m hb
    rw [Function.update_apply] at hb
    split at hb
    · obtain ⟨rfl, rfl⟩ : a = b ∧ n = m := by simpa using hb
      exact ⟨hfresh, it, Heap.load_store_self _ _ _, hlen⟩
    · obtain ⟨hnot, dst, hdst, hdlen⟩ := hs.buffer t' b m hb
      have hne : b ≠ a := fun heq => hbuf t' m (heq ▸ hb)
      exact ⟨hnot, dst, (Heap.load_store_of_ne _ _ hne).trans hdst, hdlen⟩
  · intro t₁ t₂ b m m' h₁ h₂
    rw [Function.update_apply] at h₁ h₂
    split at h₁ <;> split at h₂
    · rename_i ht₁ ht₂
      rw [ht₁, ht₂]
    · obtain ⟨rfl, -⟩ : a = b ∧ n = m := by simpa using h₁
      exact absurd h₂ (hbuf _ _)
    · obtain ⟨rfl, -⟩ : a = b ∧ n = m' := by simpa using h₂
      exact absurd h₁ (hbuf _ _)
    · exact hs.apart _ _ _ _ _ h₁ h₂

/-- The first item is popped into the buffer of a thread.  The copy stays inside the
buffer as long as the payload is at most four bytes longer than the buffer is made
for, and it brings the whole payload. -/
theorem pop {x : Nat × Block} {payload : List UInt8} {b : Addr}
    (hs : Shape w h q bufs ((a, x) :: items)) (hb : bufs t = some (b, n))
    (hx : Carries w x payload) (hn : payload.length ≤ n + 4) :
    ∃ h' dst, luatQueuePop w h (some q) (some b) = .ok (h', 0) ∧ Shape w h' q bufs items ∧
      h'.load b = some dst ∧ dst.msg.take payload.length = payload := by
  obtain ⟨hnot, dst, hdst, hlen⟩ := hs.buffer t b n hb
  have hoff := offsetofMsg_add_four_le w
  obtain ⟨hsize, hxlen, hbytes⟩ := hx
  obtain ⟨h', dst', hpop, hlinked, hdst', hmsg, hframe⟩ := pop_spec hs.linked hdst hnot
    (by omega : x.1 + sizeofItem w - 4 ≤ offsetofMsg w + x.2.length) (by omega)
  have hmlen : dst'.msg.length = sizeofItem w + n - offsetofMsg w := by
    rw [hmsg, List.length_append, List.length_take, List.length_drop]
    omega
  refine ⟨h', dst', hpop, ⟨hlinked, ?_, hs.apart⟩, hdst', ?_⟩
  · intro t' c m hc
    obtain ⟨hcnot, it, hit, hitlen⟩ := hs.buffer t' c m hc
    simp only [addrs_cons, List.mem_cons, not_or] at hcnot
    refine ⟨by simp [hcnot.1, hcnot.2.2], ?_⟩
    by_cases hcb : c = b
    · subst hcb
      obtain rfl := hs.apart _ _ _ _ _ hb hc
      obtain ⟨-, rfl⟩ : c = c ∧ n = m := by simpa [hb] using hc
      exact ⟨dst', hdst', hmlen⟩
    · refine ⟨it, ?_, hitlen⟩
      rw [hframe c (by simp [hcnot.1, hcnot.2.1, hcb]), hit]
  · have hk : payload.length ≤ x.1 + sizeofItem w - 4 - offsetofMsg w := by omega
    rw [hmsg, List.take_append_of_le_length (by rw [List.length_take]; omega), List.take_take,
      Nat.min_eq_left hk, hbytes]

/-- There is nothing to receive. -/
theorem receive_empty (hs : Shape w h q bufs []) (b : Option Addr) :
    popPayload w n h q b = .ok (h, none) := by
  cases b with
  | none => rfl
  | some b =>
    simp only [popPayload, pop_empty hs.linked b, bind, Except.bind]
    rfl

/-- **What a receiver does** with the first item: it takes it off the queue, and
gets as many bytes as it wants, of which the first are the payload. -/
theorem receive {x : Nat × Block} {payload : List UInt8} {b : Addr}
    (hs : Shape w h q bufs ((a, x) :: items)) (hb : bufs t = some (b, n))
    (hx : Carries w x payload) (hn : payload.length ≤ n) :
    ∃ h' bs, popPayload w n h q (some b) = .ok (h', some bs) ∧ Shape w h' q bufs items ∧
      bs.length = n ∧ bs.take payload.length = payload := by
  obtain ⟨h', dst, hpop, hshape, hdst, hbytes⟩ := hs.pop hb hx (by omega)
  obtain ⟨-, it, hit, hlen⟩ := hshape.buffer t b n hb
  obtain rfl : dst = it := by simpa [hdst] using hit
  have hroom : n ≤ dst.msg.length := by
    have := offsetofMsg_add_four_le w
    omega
  refine ⟨h', dst.msg.take n, ?_, hshape, ?_, ?_⟩
  · simp only [popPayload, hpop, bind, Except.bind, load_eq_ok hdst, if_pos hroom]
    rfl
  · rw [List.length_take]
    omega
  · rw [List.take_take, Nat.min_eq_left hn, hbytes]

/-- A thread frees its buffer. -/
theorem finish (hs : Shape w h q bufs items) {b : Addr} (hb : bufs t = some (b, n)) :
    Shape w (h.free b) q (Function.update bufs t none) items := by
  obtain ⟨hnot, -⟩ := hs.buffer t b n hb
  refine ⟨hs.linked.congr fun c hc => Heap.load_free_of_ne _ fun heq => hnot (heq ▸ hc), ?_, ?_⟩
  · intro t' c m hc
    rw [Function.update_apply] at hc
    split at hc
    · cases hc
    · rename_i ht
      obtain ⟨hcnot, it, hit, hlen⟩ := hs.buffer t' c m hc
      have hne : c ≠ b := fun heq => ht (hs.apart _ _ _ _ _ (heq ▸ hc) hb)
      exact ⟨hcnot, it, (Heap.load_free_of_ne _ hne).trans hit, hlen⟩
  · intro t₁ t₂ c m m' h₁ h₂
    rw [Function.update_apply] at h₁ h₂
    split at h₁
    · cases h₁
    · split at h₂
      · cases h₂
      · exact hs.apart _ _ _ _ _ h₁ h₂

end Shape

end LuatosPc.Rtos
