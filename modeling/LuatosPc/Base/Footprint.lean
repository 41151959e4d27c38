import LuatosPc.Base.Linked
import LuatosPc.Base.Program

/-!
# Programs that allocate and free blocks

Memory as the blocks that are live, and programs that ask an allocator for blocks, which
may refuse.  What a program does to the blocks it works with is told without a word about
the others: they are left as they are.

* `cells` — the live blocks with their addresses, as a multiset.
* `Allocator` — any way to choose a free address, or to refuse; `Store` — the memory, and
  how often the allocator has been asked and has refused.
* `alloc`, `read`, `write`, `dispose` — the accesses; one to an address without a live
  block is a fault.
* `Turns m L Q` — whatever else is live, the program `m` returns without a fault and turns
  the blocks `L` into blocks `G` such that `Q` holds of the result, of the number of
  refusals and of `G`.
* `Makes m L b G` — the same for a program that does not ask for memory and that always
  returns `b` and leaves `G`.
* `Turns.pure`, `Turns.bind`, `Turns.frame`, `Makes.bind` and one rule for each access — how
  such facts are put together.
-/

namespace LuatosPc.Footprint

open Linked

/-- A block and its address. -/
abbrev Cell (α ν : Type) := Sigma fun _ : α => ν

/-- One block. -/
def cell {α ν : Type} (a : α) (v : ν) : Multiset (Cell α ν) := {⟨a, v⟩}

variable {α ν : Type}

/-- The live blocks. -/
def cells (h : Heap α ν) : Multiset (Cell α ν) := (h.entries : Multiset (Cell α ν))

section Cells

variable [DecidableEq α] {h : Heap α ν} {a : α} {v w : ν} {L : Multiset (Cell α ν)}

theorem load_of_cells (hh : cells h = cell a v + L) : h.load a = some v := by
  have hmem : (⟨a, v⟩ : Cell α ν) ∈ cells h := by
    rw [hh]
    exact Multiset.mem_add.2 (.inl (Multiset.mem_singleton_self _))
  exact AList.mem_lookup_iff.2 (Multiset.mem_coe.1 hmem)

/-- A block at an address that was free. -/
theorem cells_store_of_free (ha : h.load a = none) : cells (h.store a v) = cell a v + cells h := by
  have hnot : a ∉ h := AList.lookup_eq_none.1 ha
  rw [cells, Heap.store, AList.entries_insert_of_notMem hnot]
  rfl

/-- The entries apart from those at an address. -/
theorem cells_eq_add_kerase (ha : h.load a = some v) :
    cells h = cell a v + (List.kerase a h.entries : Multiset (Cell α ν)) := by
  obtain ⟨b, l₁, l₂, -, hl, hk⟩ := List.exists_of_kerase (Heap.mem_keys_of_load ha)
  have hmem : (⟨a, b⟩ : Cell α ν) ∈ h.entries := by
    rw [hl]
    simp
  obtain rfl : b = v := Option.some.inj ((AList.mem_lookup_iff.2 hmem).symm.trans ha)
  rw [cells, hk, hl, cell, Multiset.singleton_add, Multiset.cons_coe]
  exact Multiset.coe_eq_coe.2 List.perm_middle

theorem cells_free (hh : cells h = cell a v + L) : cells (h.free a) = L := by
  have hsplit := cells_eq_add_kerase (load_of_cells hh)
  rw [hh] at hsplit
  exact (add_left_cancel hsplit).symm

theorem cells_store (hh : cells h = cell a v + L) : cells (h.store a w) = cell a w + L := by
  have hfree : (List.kerase a h.entries : Multiset (Cell α ν)) = L := cells_free hh
  rw [cells, Heap.store, ← hfree]
  show ((List.kinsert a w h.entries : List (Cell α ν)) : Multiset (Cell α ν)) = _
  rw [List.kinsert_def]
  rfl

end Cells

/-! ## Accesses -/

/-- How addresses are chosen: at every request, for any memory and any size, an address
without a live block, or none.  `junk` is what lies in memory that is handed out as it is. -/
structure Allocator (α ν : Type) [DecidableEq α] where
  pick : Nat → Heap α ν → Nat → Option α
  junk : Nat → Nat → UInt8
  fresh : ∀ {n : Nat} {h : Heap α ν} {size : Nat} {a : α}, pick n h size = some a → h.load a = none

/-- The memory, the number of requests and of those that were refused. -/
structure Store (α ν : Type) where
  heap : Heap α ν
  asked : Nat
  refused : Nat

variable {ε β γ : Type}

section Accesses

variable [DecidableEq α]

/-- A new block of `size` bytes that holds `v`. -/
def alloc (A : Allocator α ν) (size : Nat) (v : ν) : Prog ε (Store α ν) (Option α) := fun s =>
  match A.pick s.asked s.heap size with
  | none => .ok (none, { s with asked := s.asked + 1, refused := s.refused + 1 })
  | some a => .ok (some a, { s with heap := s.heap.store a v, asked := s.asked + 1 })

/-- What the block at `a` holds. -/
def read (fault : ε) (a : α) : Prog ε (Store α ν) ν := fun s =>
  match s.heap.load a with
  | none => .error fault
  | some v => .ok (v, s)

/-- Write to the block at `a`. -/
def write (fault : ε) (a : α) (v : ν) : Prog ε (Store α ν) Unit := fun s =>
  match s.heap.load a with
  | none => .error fault
  | some _ => .ok ((), { s with heap := s.heap.store a v })

/-- Free the block at `a`. -/
def dispose (fault : ε) (a : α) : Prog ε (Store α ν) Unit := fun s =>
  match s.heap.load a with
  | none => .error fault
  | some _ => .ok ((), { s with heap := s.heap.free a })

variable {A : Allocator α ν} {fault : ε} {s : Store α ν} {size : Nat} {a : α} {v w : ν}

theorem alloc_refused (h : A.pick s.asked s.heap size = none) :
    Yields (alloc A size v : Prog ε (Store α ν) (Option α)) s none
      { s with asked := s.asked + 1, refused := s.refused + 1 } := by
  simp only [Yields, alloc, h]

theorem alloc_granted (h : A.pick s.asked s.heap size = some a) :
    Yields (alloc A size v : Prog ε (Store α ν) (Option α)) s (some a)
      { s with heap := s.heap.store a v, asked := s.asked + 1 } := by
  simp only [Yields, alloc, h]

theorem read_live (h : s.heap.load a = some v) : Yields (read fault a) s v s := by
  simp only [Yields, read, h]

theorem write_live (h : s.heap.load a = some v) :
    Yields (write fault a w) s () { s with heap := s.heap.store a w } := by
  simp only [Yields, write, h]

theorem dispose_live (h : s.heap.load a = some v) :
    Yields (dispose fault a) s () { s with heap := s.heap.free a } := by
  simp only [Yields, dispose, h]

end Accesses

/-! ## What a program does to its blocks -/

/-- From any memory that has the blocks `L`, the program returns a result, after `n`
refusals, with blocks `G` in their place, for which `Q` holds.  The other blocks are the
same. -/
structure Turns (m : Prog ε (Store α ν) β) (L : Multiset (Cell α ν))
    (Q : β → Nat → Multiset (Cell α ν) → Prop) : Prop where
  ends : ∀ {s : Store α ν} {F : Multiset (Cell α ν)}, cells s.heap = L + F →
    ∃ b s' n G, Yields m s b s' ∧ s'.refused = s.refused + n ∧ cells s'.heap = G + F ∧ Q b n G

/-- The program turns the blocks `L` into the blocks `G`, returns `b` and meets no refusal. -/
def Makes (m : Prog ε (Store α ν) β) (L : Multiset (Cell α ν)) (b : β)
    (G : Multiset (Cell α ν)) : Prop :=
  Turns m L fun c n G' => c = b ∧ n = 0 ∧ G' = G

namespace Turns

variable {m : Prog ε (Store α ν) β} {k : β → Prog ε (Store α ν) γ} {L L' F : Multiset (Cell α ν)}
  {Q Q' : β → Nat → Multiset (Cell α ν) → Prop} {R : γ → Nat → Multiset (Cell α ν) → Prop}

theorem pure {b : β} (h : Q b 0 L) : Turns (Pure.pure b : Prog ε (Store α ν) β) L Q := by
  constructor
  intro s F hs
  exact ⟨b, s, 0, L, Yields.pure b s, rfl, hs, h⟩

/-- One program after another. -/
theorem bind (hm : Turns m L Q)
    (hk : ∀ b n G, Q b n G → Turns (k b) G fun c n' => R c (n + n')) : Turns (m >>= k) L R := by
  constructor
  intro s F hs
  obtain ⟨b, s₁, n, G, hy, hn, hG, hQ⟩ := hm.ends hs
  obtain ⟨c, s₂, n', G', hy', hn', hG', hR⟩ := (hk b n G hQ).ends hG
  exact ⟨c, s₂, n + n', G', hy.bind hy', by omega, hG', hR⟩

theorem mono (hm : Turns m L Q) (h : ∀ b n G, Q b n G → Q' b n G) : Turns m L Q' := by
  constructor
  intro s F hs
  obtain ⟨b, s', n, G, hy, hn, hG, hQ⟩ := hm.ends hs
  exact ⟨b, s', n, G, hy, hn, hG, h b n G hQ⟩

/-- **The frame rule**: further blocks stay as they are. -/
theorem frame (hm : Turns m L Q) (F : Multiset (Cell α ν)) :
    Turns m (L + F) fun b n G => ∃ G', G = G' + F ∧ Q b n G' := by
  constructor
  intro s F' hs
  rw [add_assoc] at hs
  obtain ⟨b, s', n, G, hy, hn, hG, hQ⟩ := hm.ends hs
  exact ⟨b, s', n, G + F, hy, hn, by rw [hG, add_assoc], G, rfl, hQ⟩

theorem within (hm : Turns m L Q) (hL : L' = L + F) (h : ∀ b n G, Q b n G → Q' b n (G + F)) :
    Turns m L' Q' := by
  subst hL
  refine (hm.frame F).mono ?_
  rintro b n _ ⟨G, rfl, hQ⟩
  exact h b n G hQ

/-- A program that works with a part of the blocks, and then the rest of the program with
all of them. -/
theorem bind_frame (hm : Turns m L Q) (hL : L' = L + F)
    (hk : ∀ b n G, Q b n G → Turns (k b) (G + F) fun c n' => R c (n + n')) :
    Turns (m >>= k) L' R := by
  subst hL
  refine (hm.frame F).bind ?_
  rintro b n _ ⟨G, rfl, hQ⟩
  exact hk b n G hQ

/-- A program that looks at the memory, of which it may use that there are blocks `L`. -/
theorem get_bind {k : Store α ν → Prog ε (Store α ν) γ}
    (h : ∀ s : Store α ν, Multiset.card L ≤ s.heap.entries.length → Turns (k s) L R) :
    Turns (get >>= k) L R := by
  constructor
  intro s F hs
  have hcard : Multiset.card L ≤ s.heap.entries.length := by
    have hlen : s.heap.entries.length = Multiset.card L + Multiset.card F := by
      rw [← Multiset.card_add, ← hs]
      rfl
    omega
  obtain ⟨c, s', n, G, hy, hn, hG, hR⟩ := (h s hcard).ends hs
  exact ⟨c, s', n, G, (Yields.get s).bind hy, hn, hG, hR⟩

variable [DecidableEq α] {A : Allocator α ν} {fault : ε} {a : α} {v w : ν}

/-- A request is refused or gives a block. -/
theorem alloc_bind {k : Option α → Prog ε (Store α ν) γ} {size : Nat}
    (hno : Turns (k none) L fun c n => R c (1 + n))
    (hyes : ∀ a, Turns (k (some a)) (cell a v + L) R) : Turns (alloc A size v >>= k) L R := by
  constructor
  intro s F hs
  cases hp : A.pick s.asked s.heap size with
  | none =>
    obtain ⟨c, s', n, G, hy, hn, hG, hR⟩ :=
      hno.ends (s := { s with asked := s.asked + 1, refused := s.refused + 1 }) hs
    exact ⟨c, s', 1 + n, G, (alloc_refused hp).bind hy, hn.trans (Nat.add_assoc _ _ _),
      hG, hR⟩
  | some a =>
    have hs' : cells (s.heap.store a v) = cell a v + L + F := by
      rw [cells_store_of_free (A.fresh hp), hs, add_assoc]
    obtain ⟨c, s', n, G, hy, hn, hG, hR⟩ :=
      (hyes a).ends (s := { s with heap := s.heap.store a v, asked := s.asked + 1 }) hs'
    exact ⟨c, s', n, G, (alloc_granted hp).bind hy, hn, hG, hR⟩

end Turns

namespace Makes

variable {m : Prog ε (Store α ν) β} {k : β → Prog ε (Store α ν) γ} {L L' F G : Multiset (Cell α ν)}
  {R : γ → Nat → Multiset (Cell α ν) → Prop} {b : β} {c : γ}

theorem pure (b : β) (L : Multiset (Cell α ν)) :
    Makes (Pure.pure b : Prog ε (Store α ν) β) L b L :=
  Turns.pure ⟨rfl, rfl, rfl⟩

/-- Such a program among other blocks, and then the rest of the program. -/
theorem bind (hm : Makes m L b G) (hL : L' = L + F) (hk : Turns (k b) (G + F) R) :
    Turns (m >>= k) L' R := by
  refine Turns.bind_frame hm hL ?_
  rintro c n G' ⟨rfl, rfl, rfl⟩
  simpa only [Nat.zero_add] using hk

/-- Such a program at the end of another one. -/
theorem within {R : β → Nat → Multiset (Cell α ν) → Prop} (hm : Makes m L b G) (hL : L' = L + F)
    (h : R b 0 (G + F)) : Turns m L' R := by
  refine Turns.within hm hL ?_
  rintro c n G' ⟨rfl, rfl, rfl⟩
  exact h

variable [DecidableEq α] {fault : ε} {a : α} {v w : ν}

theorem read : Makes (read fault a) (cell a v) v (cell a v) := by
  constructor
  intro s F hs
  exact ⟨v, s, 0, cell a v, read_live (load_of_cells hs), rfl, hs, rfl, rfl, rfl⟩

theorem write : Makes (write fault a w) (cell a v) () (cell a w) := by
  constructor
  intro s F hs
  exact ⟨(), _, 0, cell a w, write_live (load_of_cells hs), rfl, cells_store hs, rfl, rfl, rfl⟩

theorem dispose : Makes (dispose fault a) (cell a v) () 0 := by
  constructor
  intro s F hs
  refine ⟨(), _, 0, 0, dispose_live (load_of_cells hs), rfl, ?_, rfl, rfl, rfl⟩
  rw [cells_free hs, zero_add]

end Makes

end LuatosPc.Footprint
