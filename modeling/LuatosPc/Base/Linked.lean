import Mathlib

/-!
# Singly linked lists in memory

Nodes of a C program that are linked through a `next` pointer.  Memory is given
by what can be loaded from an address, a node by its pointer to the next one and
by the rest of it, its contents.

* `Heap` — finitely many blocks, each with an address, as an association list;
  `load`, `store`, `free`.
* `Chain` — from a pointer one meets, one after the other, nodes with these
  addresses and contents, and then `NULL`.
* `Chain.unique`, `Chain.nodup` — the nodes are determined by the pointer, and no
  address occurs twice.
* `last` — the loop `while (p->next) p = p->next`, with a bound on its rounds;
  `Chain.last_eq` — it ends at the last node.
* `Chain.congr`, `Chain.snoc` — memory may change elsewhere, and a node may be
  linked behind the last one.
* `Chain.length_le` — a chain has at most as many nodes as there are blocks;
  `Chain.link_last` — so the walk ends, and the new node can be linked.
* `release` — the loop that frees all nodes; `Chain.release_spec` — nothing else is
  lost.
-/

namespace LuatosPc.Linked

/-- The live blocks of memory. -/
abbrev Heap (α ν : Type*) := AList fun _ : α => ν

variable {α ν δ : Type*}

namespace Heap

variable [DecidableEq α]

/-- What the block at an address holds, if there is one. -/
def load (h : Heap α ν) (a : α) : Option ν := AList.lookup a h

/-- Write to a block, or allocate it. -/
def store (h : Heap α ν) (a : α) (v : ν) : Heap α ν := AList.insert a v h

/-- Release a block. -/
def free (h : Heap α ν) (a : α) : Heap α ν := AList.erase a h

variable (h : Heap α ν) (a b : α) (v : ν)

@[simp] theorem load_store_self : (h.store a v).load a = some v := AList.lookup_insert h

theorem load_store_of_ne {a b : α} (hab : b ≠ a) : (h.store a v).load b = h.load b :=
  AList.lookup_insert_ne hab

theorem load_free_of_ne {a b : α} (hab : b ≠ a) : (h.free a).load b = h.load b :=
  AList.lookup_erase_ne hab

theorem mem_keys_of_load {h : Heap α ν} {a : α} {v : ν} (hv : h.load a = some v) :
    a ∈ h.keys := by
  rw [← AList.mem_keys, ← AList.lookup_isSome]
  exact Option.isSome_of_eq_some hv

theorem load_eq_none_iff : h.load a = none ↔ a ∉ h.keys := by
  rw [← AList.mem_keys]
  exact AList.lookup_eq_none

end Heap

/-- Following `next` from a pointer, one meets nodes with these addresses and
contents, and then `NULL`. -/
inductive Chain (load : α → Option ν) (next : ν → Option α) (contents : ν → δ) :
    Option α → List (α × δ) → Prop
  | nil : Chain load next contents none []
  | cons {a : α} {v : ν} {l : List (α × δ)} : load a = some v →
      Chain load next contents (next v) l → Chain load next contents (some a) ((a, contents v) :: l)

/-- The addresses of the nodes. -/
def addrs (l : List (α × δ)) : List α := l.map Prod.fst

@[simp] theorem addrs_nil : addrs ([] : List (α × δ)) = [] := rfl

@[simp] theorem addrs_cons (x : α × δ) (l : List (α × δ)) : addrs (x :: l) = x.1 :: addrs l := rfl

@[simp] theorem addrs_append (l l' : List (α × δ)) : addrs (l ++ l') = addrs l ++ addrs l' :=
  List.map_append

section

variable {load load' : α → Option ν} {next : ν → Option α} {contents : ν → δ} {p : Option α}
  {l l' : List (α × δ)}

/-- A pointer determines the nodes behind it. -/
theorem Chain.unique (h : Chain load next contents p l) (h' : Chain load next contents p l') :
    l = l' := by
  induction h generalizing l' with
  | nil =>
    cases h'
    rfl
  | cons ha _ ih =>
    cases h' with
    | cons ha' hrest =>
      obtain rfl : _ = _ := Option.some.inj (ha.symm.trans ha')
      rw [ih hrest]

theorem Chain.eq_nil (h : Chain load next contents none l) : l = [] := by
  cases h
  rfl

/-- From a node in the middle one meets it and what follows it. -/
theorem Chain.suffix {a : α} {d : δ} (h : Chain load next contents p (l ++ (a, d) :: l')) :
    Chain load next contents (some a) ((a, d) :: l') := by
  induction l generalizing p with
  | nil =>
    cases h with
    | cons ha hrest => exact .cons ha hrest
  | cons x l ih =>
    cases h with
    | cons _ hrest => exact ih hrest

/-- No address occurs twice: the chains from the two places would be one. -/
theorem Chain.nodup (h : Chain load next contents p l) : (addrs l).Nodup := by
  induction h with
  | nil => exact List.nodup_nil
  | @cons a v l ha hrest ih =>
    refine List.nodup_cons.2 ⟨?_, ih⟩
    intro hmem
    obtain ⟨⟨b, d⟩, hb, rfl⟩ := List.mem_map.1 hmem
    obtain ⟨l₁, l₂, rfl⟩ := List.append_of_mem hb
    have hlen := congrArg List.length (hrest.suffix.unique (.cons ha hrest))
    simp only [List.length_cons, List.length_append] at hlen
    omega

theorem Chain.load_of_mem (h : Chain load next contents p l) {a : α} (ha : a ∈ addrs l) :
    ∃ v, load a = some v := by
  induction h with
  | nil => simp at ha
  | cons hv _ ih =>
    rcases List.mem_cons.1 ha with rfl | ha
    · exact ⟨_, hv⟩
    · exact ih ha

/-- Memory may change where the chain is not. -/
theorem Chain.congr (h : Chain load next contents p l) (heq : ∀ a ∈ addrs l, load' a = load a) :
    Chain load' next contents p l := by
  induction h with
  | nil => exact .nil
  | cons ha _ ih =>
    refine .cons ((heq _ (by simp)).trans ha) (ih ?_)
    intro b hb
    exact heq b (by simp [hb])

/-! ## Walking to the end -/

/-- `while (p->next) p = p->next`: the address at which the loop stops.  There is
none if the loop meets an address without a node or takes more than the given
number of rounds. -/
def last (load : α → Option ν) (next : ν → Option α) : Nat → α → Option α
  | 0, _ => none
  | n + 1, a =>
    match load a with
    | none => none
    | some v =>
      match next v with
      | none => some a
      | some b => last load next n b

theorem Chain.last_eq {a b : α} {d : δ} (h : Chain load next contents (some a) (l ++ [(b, d)]))
    {n : Nat} (hn : l.length < n) : last load next n a = some b := by
  induction l generalizing a n with
  | nil =>
    obtain ⟨n, rfl⟩ := Nat.exists_eq_add_one_of_ne_zero (by omega : n ≠ 0)
    cases h with
    | @cons _ v _ ha hrest =>
      generalize hnext : next v = q at hrest
      cases hrest
      simp [last, ha, hnext]
  | cons x l ih =>
    obtain ⟨n, rfl⟩ := Nat.exists_eq_add_one_of_ne_zero (by omega : n ≠ 0)
    cases h with
    | @cons _ v _ ha hrest =>
      generalize hnext : next v = q at hrest
      cases q with
      | none => exact absurd hrest.eq_nil (by simp)
      | some c =>
        simp only [last, ha, hnext]
        exact ih hrest (by simpa using hn)

/-- The last node is linked to a new one, which becomes the last. -/
theorem Chain.snoc {b c : α} {d : δ} {v w : ν} (h : Chain load next contents p (l ++ [(b, d)]))
    (heq : ∀ a ∈ addrs l, load' a = load a) (hb : load' b = some v) (hv : contents v = d)
    (hnext : next v = some c) (hw : load' c = some w) (hend : next w = none) :
    Chain load' next contents p (l ++ [(b, d), (c, contents w)]) := by
  induction l generalizing p with
  | nil =>
    cases h
    rw [← hv]
    refine .cons hb ?_
    rw [hnext]
    refine .cons hw ?_
    rw [hend]
    exact .nil
  | cons x l ih =>
    cases h with
    | cons ha hrest =>
      refine .cons ((heq _ (by simp)).trans ha) (ih hrest ?_)
      intro a hmem
      exact heq a (by simp [hmem])

end

/-- There are at least as many blocks as nodes. -/
theorem Chain.length_le [DecidableEq α] {h : Heap α ν} {next : ν → Option α} {contents : ν → δ}
    {p : Option α} {l : List (α × δ)} (hl : Chain h.load next contents p l) :
    l.length ≤ h.keys.length := by
  have hsub : addrs l ⊆ h.keys := by
    intro a ha
    obtain ⟨v, hv⟩ := hl.load_of_mem ha
    exact Heap.mem_keys_of_load hv
  have hle := (hl.nodup.subperm hsub).length_le
  rwa [addrs, List.length_map] at hle

/-- **Linking a node behind the last one**, where `setNext` writes the link of a node.
The walk comes to an end in one of the nodes, and no other node changes. -/
theorem Chain.link_last [DecidableEq α] {h : Heap α ν} {next : ν → Option α} {contents : ν → δ}
    (setNext : ν → Option α → ν) (hnext : ∀ v p, next (setNext v p) = p)
    (hcontents : ∀ v p, contents (setNext v p) = contents v) {a : α} {l : List (α × δ)}
    (hl : Chain h.load next contents (some a) l) {c : α} {w : ν} (hw : h.load c = some w)
    (hend : next w = none) (hc : c ∉ addrs l) :
    ∃ b v, last h.load next h.keys.length a = some b ∧ h.load b = some v ∧
      Chain (h.store b (setNext v (some c))).load next contents (some a) (l ++ [(c, contents w)]) ∧
      ∀ x ∉ addrs l, (h.store b (setNext v (some c))).load x = h.load x := by
  have hne : l ≠ [] := by
    rintro rfl
    cases hl
  obtain ⟨front, ⟨b, d⟩, rfl⟩ := (List.eq_nil_or_concat' l).resolve_left hne
  have hlast : last h.load next h.keys.length a = some b := by
    refine hl.last_eq ?_
    have hlen := hl.length_le
    rw [List.length_append, List.length_singleton] at hlen
    omega
  obtain ⟨v, hv, rfl⟩ : ∃ v, h.load b = some v ∧ contents v = d := by
    cases hl.suffix with
    | cons hv _ => exact ⟨_, hv, rfl⟩
  have hnodup := hl.nodup
  rw [addrs_append, List.nodup_append] at hnodup
  rw [addrs_append] at hc
  refine ⟨b, v, hlast, hv, ?_, ?_⟩
  · rw [List.append_assoc]
    apply hl.snoc (v := setNext v (some c))
    · intro x hx
      refine Heap.load_store_of_ne _ _ ?_
      rintro rfl
      exact hnodup.2.2 x hx x (by simp) rfl
    · exact Heap.load_store_self _ _ _
    · exact hcontents v _
    · exact hnext v _
    · rw [Heap.load_store_of_ne _ _ fun heq => hc (by simp [heq])]
      exact hw
    · exact hend
  · intro x hx
    exact Heap.load_store_of_ne _ _ fun heq => hx (by simp [heq])

/-! ## Releasing a list -/

/-- Free the node at the address and all that follow it.  The link is read before
its node is freed.  `none` is an address without a node, or too many rounds. -/
def release [DecidableEq α] (next : ν → Option α) : Nat → Heap α ν → α → Option (Heap α ν)
  | 0, _, _ => none
  | n + 1, h, a =>
    match h.load a with
    | none => none
    | some v =>
      match next v with
      | none => some (h.free a)
      | some b => release next n (h.free a) b

theorem Chain.release_spec [DecidableEq α] {h : Heap α ν} {next : ν → Option α}
    {contents : ν → δ} {a : α} {l : List (α × δ)} (hl : Chain h.load next contents (some a) l)
    {n : Nat} (hn : l.length ≤ n) :
    ∃ h', release next n h a = some h' ∧ ∀ b ∉ addrs l, h'.load b = h.load b := by
  have hnodup := hl.nodup
  induction n generalizing h a l with
  | zero =>
    cases hl
    simp at hn
  | succ n ih =>
    cases hl with
    | @cons _ v l ha hrest =>
      rw [addrs_cons, List.nodup_cons] at hnodup
      have hkeep : ∀ b, b ∉ addrs ((a, contents v) :: l) → (h.free a).load b = h.load b := by
        intro b hb
        exact Heap.load_free_of_ne h fun heq => hb (by simp [heq])
      cases hnext : next v with
      | none => exact ⟨h.free a, by simp [release, ha, hnext], hkeep⟩
      | some c =>
        -- the nodes behind are still there when the first one is gone
        rw [hnext] at hrest
        have htail : Chain (h.free a).load next contents (some c) l := by
          refine hrest.congr ?_
          intro b hb
          exact Heap.load_free_of_ne h fun heq => hnodup.1 (heq ▸ hb)
        obtain ⟨h', hrel, hother⟩ := ih htail (by simpa using hn) hnodup.2
        refine ⟨h', by simp [release, ha, hnext, hrel], ?_⟩
        intro b hb
        rw [hother b fun hmem => hb (by simp [hmem]), hkeep b hb]

end LuatosPc.Linked
