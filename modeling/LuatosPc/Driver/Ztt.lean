import LuatosPc.Base.Bytes
import LuatosPc.Base.Decimal
import LuatosPc.Base.Footprint
import LuatosPc.Rtos.Queue

/-!
# Reports of key and value

The model of `luat_ztt.c`: a report is a linked list of keys and values, built with
`ztt_create`, `ztt_add` and `ztt_addf`, and packed into one buffer by `ztt_commit`, which
frees the list on its way.

* `Node`, `Block` — the contents of memory; `luatHeapMalloc`, `luatHeapRealloc`,
  `luatHeapFree` — the heap, with an allocator that may refuse every request.
* `zttCreate`, `zttAdd`, `zttAddf`, `zttCommit` — the functions of the source.
* `Field`, `report` — how the drivers use them: the results of `ztt_add` and `ztt_addf`
  are not looked at.
* `Item`, `listCells` — the blocks of a list.
* `zttAdd_turns`, `zttAddf_turns`, `zttCommit_turns` — what the functions do to these.
* `Left` — what a report leaves behind; `report_turns` — it leaves that and nothing else,
  and with no refusal one buffer.
-/

namespace LuatosPc.Driver.Ztt

open Bytes Footprint Rtos

/-- `luat_ztt_t`. -/
structure Node where
  key : Option Addr
  valueLen : Nat
  value : Option Addr
  next : Option Addr
  deriving DecidableEq

/-- A block: a node, or characters. -/
inductive Block
  | node (n : Node)
  | text (bytes : List UInt8)
  deriving DecidableEq

/-- What can go wrong: an access to memory that is not there, one beside what is there, and
a loop over a list without an end. -/
inductive Fault
  | dangling
  | misuse
  | endless
  deriving DecidableEq

abbrev Mem := Store Addr Block

/-! ## The heap -/

def readNode (a : Addr) : Prog Fault Mem Node := do
  match ← read .dangling a with
  | .node n => return n
  | .text _ => throw .misuse

def readText (a : Addr) : Prog Fault Mem (List UInt8) := do
  match ← read .dangling a with
  | .node _ => throw .misuse
  | .text bytes => return bytes

/-- `memcpy(a + off, …)`, or assignments to the characters from `off` on. -/
def storeText (a : Addr) (off : Nat) (vs : List UInt8) : Prog Fault Mem Unit := do
  match store (← readText a) off vs with
  | none => throw .misuse
  | some bytes => write .dangling a (.text bytes)

/-- `memcpy(…, a, len)`: what it reads. -/
def readBytes (a : Addr) (len : Nat) : Prog Fault Mem (List UInt8) := do
  let bytes ← readText a
  if len ≤ bytes.length then return bytes.take len else throw .misuse

section Functions

variable (w : PtrSize) (A : Allocator Addr Block)

/-- `luat_heap_malloc`, for characters: the memory is zeroed. -/
def luatHeapMalloc (size : Nat) : Prog Fault Mem (Option Addr) :=
  alloc A size (.text (List.replicate size 0))

/-- `luat_heap_realloc`, for characters: a new block, or the old one stays. -/
def luatHeapRealloc (a : Addr) (size : Nat) : Prog Fault Mem (Option Addr) := do
  let bytes ← readText a
  let s ← get
  match ← alloc A size (.text (realloc bytes size (A.junk s.asked))) with
  | none => return none
  | some b => do
    dispose .dangling a
    return some b

/-- `luat_heap_free`.  A block is freed here once it has been passed to that function, which also
looks at the range of the address before it gives the block back. -/
def luatHeapFree : Option Addr → Prog Fault Mem Unit
  | none => pure ()
  | some a => dispose .dangling a

/-! ## The functions of the source -/

/-- `sizeof(luat_ztt_t)`. -/
def sizeofZtt : Nat := 4 * w.bytes

/-- The walk to the last node. -/
def walk : Nat → Addr → Prog Fault Mem Addr
  | 0, _ => throw .endless
  | fuel + 1, head => do
    match (← readNode head).next with
    | none => return head
    | some next => walk fuel next

/-- `head->next = ztt`. -/
def link (head ztt : Addr) : Prog Fault Mem Unit := do
  let n ← readNode head
  write .dangling head (.node { n with next := some ztt })

/-- Link a node behind the last one of a list, which may be empty; the new list. -/
def enqueue (head : Option Addr) (ztt : Addr) : Prog Fault Mem (Option Addr) := do
  match head with
  | none => return some ztt
  | some head => do
    let s ← get
    link (← walk s.heap.entries.length head) ztt
    return some head

/-- Copy the key and the value to the memory that has been allocated for them. -/
def fillNode (ztt k v : Addr) (key : CString) (value : List UInt8) : Prog Fault Mem Unit := do
  storeText k 0 (key.bytes ++ [0])
  storeText v 0 value
  write .dangling ztt (.node ⟨some k, value.length, some v, none⟩)

/-- Free a node and what has been allocated for its key and its value. -/
def discardNode (ztt : Addr) (k v : Option Addr) : Prog Fault Mem Unit := do
  luatHeapFree v
  luatHeapFree k
  dispose .dangling ztt

/-- `ztt_add`, with the `value_len` characters at `value`. -/
def zttAdd (head : Option Addr) (key : CString) (value : List UInt8) :
    Prog Fault Mem (Option Addr) := do
  match ← alloc A (sizeofZtt w) (.node ⟨none, 0, none, none⟩) with
  | none => return head
  | some ztt => do
    let k ← luatHeapMalloc A (strlen key + 1)
    let v ← luatHeapMalloc A value.length
    write .dangling ztt (.node ⟨k, 0, v, none⟩)
    match v, k with
    | some va, some ka => do
      fillNode ztt ka va key value
      enqueue head ztt
    | v, k => do
      discardNode ztt k v
      return head

/-- `ztt_create`. -/
def zttCreate (type : CString) : Prog Fault Mem (Option Addr) :=
  zttAdd w A none (cstr (ascii "type")) type.bytes

/-- `ztt_addf`, where the format and its arguments give `out`. -/
def zttAddf (head : Option Addr) (key : CString) (out : List UInt8) :
    Prog Fault Mem (Option Addr) := do
  match ← luatHeapMalloc A 4096 with
  | none => return none
  | some buff => do
    -- vsnprintf_ writes at most 4094 characters and returns the number of all
    storeText buff 0 (out.take 4094 ++ [0])
    if out.length = 0 then do
      dispose .dangling buff
      return none
    else do
      let value ← readBytes buff out.length
      let ret ← zttAdd w A head key value
      dispose .dangling buff
      return ret

/-- The value of a node goes to the buffer, with a comma behind it, and the node is freed. -/
def moveNode (head : Addr) (n : Node) (buff : Addr) (len : Nat) : Prog Fault Mem Unit := do
  let value ← (match n.value with
    | none => throw .dangling
    | some v => readBytes v n.valueLen)
  storeText buff len value
  storeText buff (len + n.valueLen) (ascii ",")
  luatHeapFree n.key
  luatHeapFree n.value
  dispose .dangling head

/-- The loop of `ztt_commit`; the buffer and its length, or `none` for the failed
`luat_heap_realloc`. -/
def commitLoop : Nat → Option Addr → Addr → Nat → Prog Fault Mem (Option (Addr × Nat))
  | _, none, buff, len => return some (buff, len)
  | 0, some _, _, _ => throw .endless
  | fuel + 1, some head, buff, len => do
    let n ← readNode head
    match ← luatHeapRealloc A buff (len + n.valueLen + 2) with
    | none => return none
    | some buff => do
      moveNode head n buff len
      commitLoop fuel n.next buff (len + n.valueLen + 1)

/-- `ztt_commit`. -/
def zttCommit : Option Addr → Prog Fault Mem Int
  | none => return -1
  | some ztt => do
    match ← luatHeapMalloc A 4 with
    | none => return -2
    | some buff => do
      let s ← get
      match ← commitLoop A s.heap.entries.length (some ztt) buff 0 with
      | none => return -3
      | some (buff, len) => do
        storeText buff len (ascii "0")
        return 0

/-! ## Reports -/

/-- `%d`. -/
def intText (i : Int32) : List UInt8 :=
  if i.toInt < 0 then ascii "-" ++ Decimal.decimal i.toInt.natAbs else Decimal.decimal i.toInt.natAbs

/-- One line of a report. -/
inductive Field
  /-- `ztt_add(ztt, key, value, strlen(value))`. -/
  | str (key value : CString)
  /-- `ztt_addf(ztt, key, "%d", i)`. -/
  | int (key : CString) (i : Int32)

/-- The characters of the value. -/
def Field.value : Field → List UInt8
  | .str _ value => value.bytes
  | .int _ i => intText i

def Field.key : Field → CString
  | .str key _ => key
  | .int key _ => key

def addField (ztt : Option Addr) : Field → Prog Fault Mem (Option Addr)
  | .str key value => zttAdd w A ztt key value.bytes
  | .int key i => zttAddf w A ztt key (intText i)

/-- The lines of a report, one after the other. -/
def addFields (ztt : Option Addr) : List Field → Prog Fault Mem Unit
  | [] => return ()
  | f :: fs => do
    let _ ← addField w A ztt f
    addFields ztt fs

/-- A report of some type: `ztt_create`, the lines, `ztt_commit`. -/
def report (type : CString) (fields : List Field) : Prog Fault Mem Int := do
  let ztt ← zttCreate w A type
  addFields w A ztt fields
  zttCommit A ztt

/-- The characters that `ztt_commit` puts together. -/
def message (values : List (List UInt8)) : List UInt8 :=
  values.flatMap (· ++ ascii ",") ++ ascii "0"

end Functions

/-! ## What the accesses do -/

section Accesses

variable {A : Allocator Addr Block} {a : Addr} {n : Node} {bytes vs : List UInt8} {off len : Nat}

theorem makes_readNode : Makes (readNode a) (cell a (.node n)) n (cell a (.node n)) := by
  refine Makes.read.bind (add_zero _).symm ?_
  rw [add_zero]
  exact Makes.pure n _

theorem makes_readText :
    Makes (readText a) (cell a (.text bytes)) bytes (cell a (.text bytes)) := by
  refine Makes.read.bind (add_zero _).symm ?_
  rw [add_zero]
  exact Makes.pure bytes _

theorem makes_readBytes (h : len ≤ bytes.length) :
    Makes (readBytes a len) (cell a (.text bytes)) (bytes.take len) (cell a (.text bytes)) := by
  refine makes_readText.bind (add_zero _).symm ?_
  rw [add_zero, if_pos h]
  exact Makes.pure _ _

theorem makes_storeText (h : off + vs.length ≤ bytes.length) :
    Makes (storeText a off vs) (cell a (.text bytes)) ()
      (cell a (.text (overwrite bytes off vs))) := by
  refine makes_readText.bind (add_zero _).symm ?_
  rw [add_zero, store_of_le h]
  exact Makes.write

/-- The first characters of a block of zeros. -/
theorem makes_storeText_zeros (vs : List UInt8) (extra : Nat) :
    Makes (storeText a 0 vs) (cell a (.text (List.replicate (vs.length + extra) 0))) ()
      (cell a (.text (vs ++ List.replicate extra 0))) := by
  refine makes_readText.bind (add_zero _).symm ?_
  rw [add_zero, store_zeros (Nat.le_add_right _ _), Nat.add_sub_cancel_left]
  exact Makes.write

/-- The block that a pointer points to, if it points to one. -/
def ofPtr (p : Option Addr) (v : Block) : Multiset (Cell Addr Block) :=
  match p with
  | none => 0
  | some a => cell a v

theorem makes_luatHeapFree (p : Option Addr) (v : Block) :
    Makes (luatHeapFree p) (ofPtr p v) () 0 := by
  cases p with
  | none => exact Makes.pure _ _
  | some a => exact Makes.dispose

end Accesses

/-! ## The blocks of a list -/

/-- A node with its key and its value: where they are, and what they say. -/
structure Item where
  addr : Addr
  key : Addr
  value : Addr
  name : CString
  bytes : List UInt8

/-- The node. -/
def Item.node (it : Item) (next : Option Addr) : Node :=
  ⟨some it.key, it.bytes.length, some it.value, next⟩

/-- Its three blocks. -/
def Item.cells (it : Item) (next : Option Addr) : Multiset (Cell Addr Block) :=
  cell it.addr (.node (it.node next)) +
    (cell it.key (.text (it.name.bytes ++ [0])) + cell it.value (.text it.bytes))

/-- The pointer to the first of some items that are followed by `next`. -/
def start : List Item → Option Addr → Option Addr
  | [], next => next
  | it :: _, _ => some it.addr

/-- The blocks of items that are followed by `next`. -/
def segment : List Item → Option Addr → Multiset (Cell Addr Block)
  | [], _ => 0
  | it :: rest, next => it.cells (start rest next) + segment rest next

/-- The blocks of a list. -/
def listCells (items : List Item) : Multiset (Cell Addr Block) := segment items none

theorem start_append (items : List Item) (it : Item) (next : Option Addr) :
    start (items ++ [it]) next = start items (some it.addr) := by
  cases items <;> rfl

/-- A list with items has a first one, whatever follows it. -/
theorem exists_start {items : List Item} (hne : items ≠ []) :
    ∃ head, ∀ next, start items next = some head := by
  cases items with
  | nil => exact absurd rfl hne
  | cons it items => exact ⟨it.addr, fun _ => rfl⟩

theorem segment_concat (items : List Item) (it : Item) (next : Option Addr) :
    segment (items ++ [it]) next = segment items (some it.addr) + it.cells next := by
  induction items with
  | nil => simp [segment, start]
  | cons x items ih =>
    rw [List.cons_append, segment, segment, ih, start_append, add_assoc]

theorem listCells_cons (it : Item) (items : List Item) :
    listCells (it :: items) = it.cells (start items none) + listCells items := rfl

theorem length_le_card_segment (items : List Item) (next : Option Addr) :
    items.length ≤ Multiset.card (segment items next) := by
  induction items with
  | nil => exact Nat.zero_le _
  | cons it items ih =>
    simp only [segment, Item.cells, cell, Multiset.card_add, Multiset.card_singleton,
      List.length_cons]
    omega

/-! ## `ztt_add` -/

section Add

variable {w : PtrSize} {A : Allocator Addr Block} {items : List Item} {key : CString}
  {value : List UInt8}

/-- The walk stops at the last node. -/
theorem makes_walk (front : List Item) (last : Item) {head : Addr} {fuel : Nat}
    (hhead : start (front ++ [last]) none = some head) (hfuel : front.length < fuel) :
    Makes (walk fuel head) (listCells (front ++ [last])) last.addr (listCells (front ++ [last])) := by
  induction front generalizing head fuel with
  | nil =>
    obtain ⟨fuel, rfl⟩ := Nat.exists_eq_add_one_of_ne_zero (by omega : fuel ≠ 0)
    cases hhead
    refine (makes_readNode (n := last.node none)).bind (add_assoc _ _ _) ?_
    exact Turns.pure ⟨rfl, rfl, (add_assoc _ _ _).symm⟩
  | cons it front ih =>
    obtain ⟨fuel, rfl⟩ := Nat.exists_eq_add_one_of_ne_zero (by omega : fuel ≠ 0)
    cases hhead
    obtain ⟨next, hstart⟩ := exists_start (List.append_ne_nil_of_right_ne_nil front (List.cons_ne_nil last []))
    have hnext := hstart none
    have hrest := ih hnext (Nat.lt_of_succ_lt_succ hfuel)
    refine (makes_readNode (n := it.node (some next))).bind (F := cell it.key
      (.text (it.name.bytes ++ [0])) + cell it.value (.text it.bytes) + listCells (front ++ [last]))
      ?_ ?_
    · rw [List.cons_append, listCells_cons, Item.cells, hnext, add_assoc]
    · refine hrest.within (F := it.cells (some next)) ?_ ⟨rfl, rfl, ?_⟩
      · rw [Item.cells]
        abel
      · rw [List.cons_append, listCells_cons, hnext, add_comm]

theorem makes_link (it : Item) (next : Option Addr) (ztt : Addr) :
    Makes (link it.addr ztt) (cell it.addr (.node (it.node next))) ()
      (cell it.addr (.node (it.node (some ztt)))) := by
  refine makes_readNode.bind (add_zero _).symm ?_
  rw [add_zero]
  exact Makes.write

/-- A new node becomes the last one. -/
theorem makes_enqueue (items : List Item) (new : Item) :
    Makes (enqueue (start items none) new.addr) (listCells items + new.cells none)
      (start (items ++ [new]) none) (listCells (items ++ [new])) := by
  rcases List.eq_nil_or_concat' items with rfl | ⟨front, last, rfl⟩
  · refine Makes.within (Makes.pure _ _) (add_zero _).symm ⟨rfl, rfl, ?_⟩
    simp [listCells, segment, start]
  · obtain ⟨head, hstart⟩ := exists_start (List.append_ne_nil_of_right_ne_nil front (List.cons_ne_nil last []))
    have hhead := hstart none
    rw [hhead]
    refine Turns.get_bind fun s hs => ?_
    have hfuel : front.length < s.heap.entries.length := by
      have hlen := length_le_card_segment (front ++ [last]) none
      rw [Multiset.card_add, listCells] at hs
      rw [List.length_append, List.length_singleton] at hlen
      omega
    refine (makes_walk front last hhead hfuel).bind rfl ?_
    -- the last node is taken out of the list, and put back with its link to the new one
    refine (makes_link last none new.addr).bind (F := segment front (some last.addr) +
      (cell last.key (.text (last.name.bytes ++ [0])) + cell last.value (.text last.bytes)) +
      new.cells none) ?_ ?_
    · rw [listCells, segment_concat, Item.cells]
      abel
    · refine Turns.pure ⟨?_, rfl, ?_⟩
      · rw [start_append, start_append, ← hhead, start_append]
      · simp only [listCells, segment_concat, Item.cells]
        abel

/-- What `ztt_add` does to a list: it is longer by one item, or a request was refused and it
is as it was. -/
inductive Added (items : List Item) (key : CString) (value : List UInt8) :
    Option Addr → Nat → Multiset (Cell Addr Block) → Prop
  | kept {n : Nat} : 0 < n → Added items key value (start items none) n (listCells items)
  | added (it : Item) : it.name = key → it.bytes = value →
      Added items key value (start (items ++ [it]) none) 0 (listCells (items ++ [it]))

theorem makes_fillNode (it : Item) {n : Node} :
    Makes (fillNode it.addr it.key it.value it.name it.bytes)
      (cell it.addr (.node n) + (cell it.key (.text (List.replicate (strlen it.name + 1) 0)) +
        cell it.value (.text (List.replicate it.bytes.length 0)))) () (it.cells none) := by
  have hkey := makes_storeText_zeros (a := it.key) (it.name.bytes ++ [0]) 0
  have hvalue := makes_storeText_zeros (a := it.value) it.bytes 0
  simp only [List.length_append, List.length_singleton, Nat.add_zero, List.replicate_zero,
    List.append_nil] at hkey hvalue
  refine hkey.bind (F := cell it.addr (.node n) +
    cell it.value (.text (List.replicate it.bytes.length 0))) (by simp only [strlen]; abel) ?_
  refine hvalue.bind (F := cell it.addr (.node n) + cell it.key (.text (it.name.bytes ++ [0])))
    (by abel) ?_
  exact (Makes.write (v := .node n)).within (F := cell it.key (.text (it.name.bytes ++ [0])) +
    cell it.value (.text it.bytes)) (by abel) ⟨rfl, rfl, rfl⟩

theorem makes_discardNode (ztt : Addr) (k v : Option Addr) (x y z : Block) :
    Makes (discardNode ztt k v) (cell ztt x + (ofPtr k y + ofPtr v z)) () 0 := by
  refine (makes_luatHeapFree v z).bind (F := cell ztt x + ofPtr k y) (by abel) ?_
  refine (makes_luatHeapFree k y).bind (F := cell ztt x) (by abel) ?_
  exact (Makes.dispose (v := x)).within (zero_add _ |>.trans (add_zero _).symm)
    ⟨rfl, rfl, add_zero _⟩

/-- Whatever is missing, what there is of a node is freed. -/
theorem discardNode_turns {L : Multiset (Cell Addr Block)} {ztt : Addr} {k v : Option Addr}
    {x y z : Block} {n : Nat} (hn : 0 < n)
    (hL : L = cell ztt x + (ofPtr k y + ofPtr v z) + listCells items) :
    Turns (do discardNode ztt k v; return start items none) L
      (fun p n' => Added items key value p (n + n')) := by
  refine (makes_discardNode ztt k v x y z).bind hL ?_
  rw [zero_add]
  exact Turns.pure (.kept (by omega))

theorem zttAdd_turns : Turns (zttAdd w A (start items none) key value) (listCells items)
    (Added items key value) := by
  refine Turns.alloc_bind (Turns.pure (.kept Nat.one_pos)) fun ztt => ?_
  refine Turns.alloc_bind ?_ fun k => ?_
  · refine Turns.alloc_bind ?_ fun v => ?_
    · refine Makes.write.bind rfl ?_
      simp only [← Nat.add_assoc]
      exact discardNode_turns (k := none) (v := none) (x := .node ⟨none, 0, none, none⟩)
        (y := .text []) (z := .text []) two_pos (by simp [ofPtr])
    · refine Makes.write.bind (add_left_comm _ _ _) ?_
      exact discardNode_turns (k := none) (v := some v) (y := .text []) one_pos
        (by simp only [ofPtr]; abel)
  · refine Turns.alloc_bind ?_ fun v => ?_
    · refine Makes.write.bind (add_left_comm _ _ _) ?_
      exact discardNode_turns (k := some k) (v := none) (z := .text []) one_pos
        (by simp only [ofPtr]; abel)
    · refine (Makes.write (v := .node ⟨none, 0, none, none⟩)).bind
        (F := cell v (.text (List.replicate value.length 0)) +
          cell k (.text (List.replicate (strlen key + 1) 0)) + listCells items) (by abel) ?_
      let it : Item := ⟨ztt, k, v, key, value⟩
      refine (makes_fillNode it).bind (F := listCells items) (by abel) ?_
      refine (makes_enqueue items it).within (add_comm _ _ |>.trans (add_zero _).symm) ?_
      rw [add_zero]
      exact .added it rfl rfl

/-- `ztt_addf` does the same to the list, if its text fits the buffer; its result may be
`NULL`. -/
theorem zttAddf_turns (hpos : 0 < value.length) (hlen : value.length ≤ 4094) :
    Turns (zttAddf w A (start items none) key value) (listCells items)
      fun _ n G => ∃ p, Added items key value p n G := by
  refine Turns.alloc_bind (Turns.pure ⟨_, .kept Nat.one_pos⟩) fun buff => ?_
  have hzeros : (value ++ [0]).length + (4095 - value.length) = 4096 := by
    rw [List.length_append, List.length_singleton]
    omega
  have hfill := makes_storeText_zeros (a := buff) (value ++ [0]) (4095 - value.length)
  rw [hzeros] at hfill
  rw [List.take_of_length_le hlen]
  refine hfill.bind rfl ?_
  rw [if_neg (by omega)]
  -- the characters of the value stand at the front of the buffer
  have hread : Makes (readBytes buff value.length)
      (cell buff (.text (value ++ [0] ++ List.replicate (4095 - value.length) 0))) _ _ :=
    makes_readBytes (by rw [List.length_append, List.length_append]; omega)
  rw [List.append_assoc, List.take_left' rfl] at hread
  rw [List.append_assoc]
  refine hread.bind rfl ?_
  refine zttAdd_turns.bind_frame (add_comm _ _) ?_
  intro p n G hG
  refine Makes.dispose.bind (add_comm _ _) ?_
  rw [zero_add]
  exact Turns.pure ⟨p, hG⟩

end Add

/-! ## `ztt_commit` -/

section Commit

variable {A : Allocator Addr Block}

/-- The new buffer, with the same characters at its front, or the old one. -/
theorem luatHeapRealloc_turns {a : Addr} {acc rest : List UInt8} {size more : Nat}
    (hsize : size = acc.length + more) :
    Turns (luatHeapRealloc A a size) (cell a (.text (acc ++ rest))) fun p n G =>
      (p = none ∧ n = 1 ∧ G = cell a (.text (acc ++ rest))) ∨
        ∃ b rest', p = some b ∧ n = 0 ∧ G = cell b (.text (acc ++ rest')) ∧ rest'.length = more := by
  subst hsize
  refine makes_readText.bind (add_zero _).symm ?_
  rw [add_zero]
  refine Turns.get_bind fun s _ => ?_
  refine Turns.alloc_bind (Turns.pure (.inl ⟨rfl, rfl, rfl⟩)) fun b => ?_
  refine Makes.dispose.bind (add_comm _ _) ?_
  rw [zero_add]
  generalize hnew : realloc (acc ++ rest) (acc.length + more) (A.junk s.asked) = bytes
  have htake : bytes.take acc.length = acc := by
    rw [← hnew, take_realloc _ (Nat.le_add_right _ _) (by rw [List.length_append]; omega),
      List.take_left' rfl]
  have hsplit : bytes = acc ++ bytes.drop acc.length := by
    calc bytes = bytes.take acc.length ++ bytes.drop acc.length :=
          (List.take_append_drop _ _).symm
      _ = acc ++ bytes.drop acc.length := by rw [htake]
  refine Turns.pure (.inr ⟨b, bytes.drop acc.length, rfl, rfl, by rw [← hsplit], ?_⟩)
  · rw [List.length_drop, ← hnew, length_realloc, Nat.add_sub_cancel_left]

/-- The characters of some items, as far as they are packed in the loop. -/
def packed (items : List Item) : List UInt8 := items.flatMap fun it => it.bytes ++ ascii ","

theorem makes_moveNode (it : Item) (next : Option Addr) {buff : Addr} {bytes : List UInt8}
    {len : Nat} (h : len + it.bytes.length + 1 ≤ bytes.length) :
    Makes (moveNode it.addr (it.node next) buff len) (cell buff (.text bytes) + it.cells next) ()
      (cell buff (.text (overwrite bytes len (it.bytes ++ ascii ",")))) := by
  have hread := makes_readBytes (a := it.value) (le_refl it.bytes.length)
  rw [List.take_length] at hread
  refine hread.bind (F := cell buff (.text bytes) + (cell it.addr (.node (it.node next)) +
    cell it.key (.text (it.name.bytes ++ [0])))) (by simp only [Item.cells]; abel) ?_
  have hfits : len + it.bytes.length ≤ bytes.length := by omega
  refine (makes_storeText hfits).bind (F := it.cells next) (by simp only [Item.cells]; abel) ?_
  have hcomma : len + it.bytes.length + (ascii ",").length ≤
      (overwrite bytes len it.bytes).length := by
    rw [length_overwrite hfits]
    exact h
  refine (makes_storeText hcomma).bind rfl ?_
  rw [overwrite_overwrite hfits]
  refine (makes_luatHeapFree (some it.key) (.text (it.name.bytes ++ [0]))).bind
    (F := cell it.addr (.node (it.node next)) + cell it.value (.text it.bytes) +
      cell buff (.text (overwrite bytes len (it.bytes ++ ascii ","))))
    (by simp only [Item.cells, ofPtr]; abel) ?_
  refine (makes_luatHeapFree (some it.value) (.text it.bytes)).bind
    (F := cell it.addr (.node (it.node next)) +
      cell buff (.text (overwrite bytes len (it.bytes ++ ascii ","))))
    (by simp only [ofPtr]; abel) ?_
  exact Makes.dispose.within (zero_add _) ⟨rfl, rfl, zero_add _⟩

/-- What the loop leaves: the characters of all items in a buffer that has room for one more,
or, after a refusal, a buffer and the items that are not packed yet. -/
inductive Looped (acc : List UInt8) (items : List Item) :
    Option (Addr × Nat) → Nat → Multiset (Cell Addr Block) → Prop
  | done (b : Addr) (x : UInt8) : Looped acc items (some (b, (acc ++ packed items).length)) 0
      (cell b (.text (acc ++ packed items ++ [x])))
  | cut {n : Nat} (b : Addr) (bytes : List UInt8) (rest : List Item) : 0 < n → rest ≠ [] →
      rest <:+ items → Looped acc items none n (cell b (.text bytes) + listCells rest)

/-- A round of the loop, then the others. -/
theorem Looped.cons {acc : List UInt8} {it : Item} {items : List Item} {r : Option (Addr × Nat)}
    {n : Nat} {G : Multiset (Cell Addr Block)}
    (h : Looped (acc ++ (it.bytes ++ ascii ",")) items r n G) : Looped acc (it :: items) r n G := by
  cases h with
  | done b x =>
    have hpacked : acc ++ (it.bytes ++ ascii ",") ++ packed items = acc ++ packed (it :: items) :=
      List.append_assoc _ _ _
    rw [hpacked]
    exact .done b x
  | cut b bytes rest hn hrest hsuffix =>
    exact .cut b bytes rest hn hrest (hsuffix.trans (List.suffix_cons it items))

theorem commitLoop_turns {acc rest : List UInt8} {items : List Item} {buff : Addr} {fuel : Nat}
    (hrest : items = [] → rest.length = 1) (hfuel : items.length ≤ fuel) :
    Turns (commitLoop A fuel (start items none) buff acc.length)
      (cell buff (.text (acc ++ rest)) + listCells items) (Looped acc items) := by
  induction items generalizing acc rest buff fuel with
  | nil =>
    obtain ⟨x, rfl⟩ := List.length_eq_one_iff.1 (hrest rfl)
    have hdone : Looped acc [] (some (buff, (acc ++ packed []).length)) 0
        (cell buff (.text (acc ++ packed [] ++ [x]))) := .done buff x
    simp only [packed, List.flatMap_nil, List.append_nil] at hdone
    cases fuel <;> exact Turns.pure (by rw [listCells, segment, add_zero]; exact hdone)
  | cons it items ih =>
    obtain ⟨fuel, rfl⟩ := Nat.exists_eq_add_one_of_ne_zero (by simp at hfuel; omega : fuel ≠ 0)
    refine (makes_readNode (n := it.node (start items none))).bind (F := cell buff
      (.text (acc ++ rest)) + (cell it.key (.text (it.name.bytes ++ [0])) +
      cell it.value (.text it.bytes)) + listCells items)
      (by rw [listCells_cons, Item.cells]; abel) ?_
    refine (luatHeapRealloc_turns (Nat.add_assoc _ _ _)).bind_frame
      (F := listCells (it :: items)) (by rw [listCells_cons, Item.cells]; abel) ?_
    rintro p n G (⟨rfl, rfl, rfl⟩ | ⟨b, rest', rfl, rfl, rfl, hlen⟩)
    · exact Turns.pure (.cut buff _ (it :: items) (by omega) (List.cons_ne_nil _ _)
        List.suffix_rfl)
    · replace hlen : rest'.length = it.bytes.length + 2 := hlen
      have hroom : acc.length + it.bytes.length + 1 ≤ (acc ++ rest').length := by
        rw [List.length_append]
        omega
      refine (makes_moveNode it (start items none) hroom).bind (F := listCells items)
        (by rw [listCells_cons]; abel) ?_
      have hcomma : (it.bytes ++ ascii ",").length = it.bytes.length + 1 := List.length_append
      have hlen' : acc.length + it.bytes.length + 1 = (acc ++ (it.bytes ++ ascii ",")).length := by
        rw [List.length_append, hcomma, Nat.add_assoc]
      have hnext := @ih (acc ++ (it.bytes ++ ascii ","))
        (rest'.drop (it.bytes ++ ascii ",").length) b fuel
        (fun _ => by rw [List.length_drop, hcomma]; omega) (Nat.le_of_succ_le_succ hfuel)
      rw [← hlen'] at hnext
      rw [overwrite_append]
      simp only [Nat.zero_add]
      exact hnext.mono fun r n G h => h.cons

/-- What `ztt_commit` leaves of a list: the message in one block, or after a refusal the list,
or a buffer and the end of the list. -/
inductive Committed (items : List Item) : Int → Nat → Multiset (Cell Addr Block) → Prop
  | sent (a : Addr) : Committed items 0 0 (cell a (.text (packed items ++ ascii "0")))
  | unsent {n : Nat} : 0 < n → Committed items (-2) n (listCells items)
  | cut {n : Nat} (a : Addr) (bytes : List UInt8) (rest : List Item) : 0 < n → rest ≠ [] →
      rest <:+ items → Committed items (-3) n (cell a (.text bytes) + listCells rest)

theorem zttCommit_turns {items : List Item} (hne : items ≠ []) :
    Turns (zttCommit A (start items none)) (listCells items) (Committed items) := by
  obtain ⟨ztt, hstart⟩ := exists_start hne
  have hztt := hstart none
  rw [hztt]
  refine Turns.alloc_bind (Turns.pure (.unsent Nat.one_pos)) fun buff => ?_
  refine Turns.get_bind fun s hs => ?_
  have hfuel : items.length ≤ s.heap.entries.length := by
    have hcard := length_le_card_segment items none
    rw [Multiset.card_add, listCells] at hs
    omega
  have hloop : Turns (commitLoop A s.heap.entries.length (start items none) buff 0)
      (cell buff (.text ([] ++ List.replicate 4 0)) + listCells items) (Looped [] items) :=
    @commitLoop_turns A [] _ items buff _ (fun h => absurd h hne) hfuel
  rw [hztt] at hloop
  refine hloop.bind ?_
  rintro r n G (⟨b, x⟩ | ⟨b, bytes, rest, hn, hrest, hsuffix⟩)
  · have hone : (ascii "0").length = 1 := rfl
    have hlast : (packed items).length + (ascii "0").length ≤ (packed items ++ [x]).length := by
      rw [hone, List.length_append, List.length_singleton]
    simp only [List.nil_append]
    refine (makes_storeText hlast).bind (add_zero _).symm ?_
    rw [add_zero, overwrite_append, hone, List.drop_one, List.tail_cons, List.append_nil]
    exact Turns.pure (Committed.sent b)
  · exact Turns.pure (.cut b bytes rest (by omega) hrest hsuffix)

end Commit

/-! ## Reports -/

section Report

variable {w : PtrSize} {A : Allocator Addr Block}

theorem length_intText (i : Int32) : 0 < (intText i).length ∧ (intText i).length ≤ 4094 := by
  have hlow := i.le_toInt
  have hhigh := i.toInt_lt
  have hdec := Decimal.length_decimal (k := 9) (n := i.toInt.natAbs) (by omega)
  rw [intText]
  split
  · rw [List.length_append]
    have hminus : (ascii "-").length = 1 := rfl
    omega
  · omega

/-- A line is added to the list, or a request was refused. -/
theorem addField_turns (items : List Item) (f : Field) :
    Turns (addField w A (start items none) f) (listCells items)
      fun _ n G => ∃ p, Added items f.key f.value p n G := by
  cases f with
  | str key value => exact zttAdd_turns.mono fun p n G h => ⟨p, h⟩
  | int key i => exact zttAddf_turns (length_intText i).1 (length_intText i).2

/-- The lines of a report whose list has been created. -/
theorem addFields_turns (fields : List Field) (items : List Item) (hne : items ≠ []) :
    Turns (addFields w A (start items none) fields) (listCells items) fun _ n G =>
      ∃ more, G = listCells (items ++ more) ∧
        (more.map Item.bytes).Sublist (fields.map Field.value) ∧
        (n = 0 → more.map Item.bytes = fields.map Field.value) := by
  induction fields generalizing items with
  | nil => exact Turns.pure ⟨[], by rw [List.append_nil], List.Sublist.refl _, fun _ => rfl⟩
  | cons f fields ih =>
    refine (addField_turns items f).bind ?_
    rintro _ n _ ⟨_, hn | ⟨it, -, hbytes⟩⟩
    · refine (ih items hne).mono ?_
      rintro _ n' G ⟨more, hG, hsub, -⟩
      exact ⟨more, hG, hsub.cons _, fun h => absurd h (by omega)⟩
    · -- the list has the same first node
      obtain ⟨head, hhead⟩ := exists_start hne
      have hstart : start items none = start (items ++ [it]) none := by
        rw [start_append, hhead, hhead]
      rw [hstart]
      refine (ih (items ++ [it]) (by simp)).mono ?_
      rintro _ n' G ⟨more, hG, hsub, heq⟩
      refine ⟨it :: more, by rw [hG, List.append_assoc, List.singleton_append], ?_, ?_⟩
      · rw [List.map_cons, List.map_cons, hbytes]
        exact hsub.cons_cons _
      · intro h
        rw [List.map_cons, List.map_cons, hbytes, heq (by omega)]

/-- Without a list, every line becomes a list of its own that nothing points to. -/
theorem addFields_none_turns (fields : List Field) :
    Turns (addFields w A none fields) 0 fun _ _ G =>
      ∃ strays : List Item, G = (strays.map fun it => it.cells none).sum := by
  induction fields with
  | nil => exact Turns.pure ⟨[], rfl⟩
  | cons f fields ih =>
    refine (addField_turns [] f).bind ?_
    rintro _ n _ ⟨_, hn | ⟨it, -, hbytes⟩⟩
    · exact ih
    · refine ih.within (F := it.cells none) (by simp [listCells, segment, start]) ?_
      rintro _ n' G ⟨strays, hG⟩
      exact ⟨it :: strays, by rw [List.map_cons, List.sum_cons, hG, add_comm]⟩

/-- What a report with these values leaves behind, after `n` refusals. -/
inductive Left (values : List (List UInt8)) : Int → Nat → Multiset (Cell Addr Block) → Prop
  /-- One buffer, with the values that there was memory for. -/
  | sent {n : Nat} (a : Addr) (kept : List (List UInt8)) : kept.Sublist values →
      (n = 0 → kept = values) → Left values 0 n (cell a (.text (message kept)))
  /-- Nodes that nothing points to. -/
  | stray {n : Nat} (strays : List Item) : 0 < n →
      Left values (-1) n (strays.map fun it => it.cells none).sum
  /-- The whole list. -/
  | unsent {n : Nat} (items : List Item) : 0 < n → Left values (-2) n (listCells items)
  /-- A buffer that is not complete, and the rest of the list. -/
  | cut {n : Nat} (a : Addr) (bytes : List UInt8) (items : List Item) : 0 < n → items ≠ [] →
      Left values (-3) n (cell a (.text bytes) + listCells items)

/-- With no refusal it is the whole message. -/
theorem Left.eq_cell {values : List (List UInt8)} {r : Int} {n : Nat}
    {G : Multiset (Cell Addr Block)} (h : Left values r n G) (hn : n = 0) :
    ∃ a, G = cell a (.text (message values)) := by
  cases h with
  | sent a kept _ hkept => exact ⟨a, by rw [hkept hn]⟩
  | stray _ hpos => omega
  | unsent _ hpos => omega
  | cut _ _ _ hpos _ => omega

/-- **A report leaves something behind**, whatever the allocator does. -/
theorem report_turns (type : CString) (fields : List Field) :
    Turns (report w A type fields) 0 (Left (type.bytes :: fields.map Field.value)) := by
  have hcreate : Turns (zttCreate w A type) 0 (Added [] (cstr (ascii "type")) type.bytes) :=
    @zttAdd_turns w A [] _ _
  refine hcreate.bind ?_
  rintro _ n _ (hn | ⟨it, -, hbytes⟩)
  · -- there is no list
    refine (addFields_none_turns fields).bind ?_
    rintro _ n' _ ⟨strays, rfl⟩
    exact Turns.pure (.stray strays (by omega))
  · refine (addFields_turns fields [it] (List.cons_ne_nil _ _)).bind ?_
    rintro _ n' _ ⟨more, rfl, hsub, heq⟩
    have hvalues : packed ([it] ++ more) ++ ascii "0" =
        message (type.bytes :: more.map Item.bytes) := by
      rw [packed, message, List.singleton_append, List.flatMap_cons, List.flatMap_cons, hbytes,
        List.flatMap_map]
    have hcommit : Turns (zttCommit A (start ([it] ++ more) none)) (listCells ([it] ++ more))
        (Committed ([it] ++ more)) := zttCommit_turns (by simp)
    refine hcommit.mono ?_
    rintro r m G (⟨a⟩ | hm | ⟨a, bytes, rest, hm, hrest, -⟩)
    · rw [hvalues]
      refine .sent a _ (hsub.cons_cons _) fun h => ?_
      rw [heq (by omega)]
    · exact .unsent _ (by omega)
    · exact .cut a bytes rest (by omega) hrest

end Report

end LuatosPc.Driver.Ztt
