import LuatosPc.Base.Machine

/-!
# Queues: what goes in comes out, in order

Streams of bytes, lists of datagrams and message queues all obey one law: what
has been taken out, followed by what is still inside, is what has been put in.
The law is proved here once, for a machine whose states stand for queues in some
way or other: each step has to take its output off the front of the queue and to
put its input behind it.

* `Path.fifo` — the law along a part of a run, from a queue that need not be
  empty.
* `Run.fifo` — the law for whole runs.
* `Path.lossless_iff` — for a queue that may lose something on the way: the law holds
  if and only if nothing is lost.
* `Path.lossy_fifo` — what is left of the law otherwise: what comes out, in order, is
  among what went in.
* `Buffered` — a queue in a C program: what stands behind a pointer, which is `NULL`
  when there is nothing, with a length beside it.
-/

namespace LuatosPc

variable {S A O α : Type*} {M : Machine S A O} {tr : List (Transition S A O)} {s s' : S}

/-- **First in, first out.**  `R t xs` says that state `t` stands for the queue
`xs`.  If every step that meets `C` takes `outs` off the front and puts `ins`
behind, then so does the whole path. -/
theorem Path.fifo {R : S → List α → Prop} {ins outs : Transition S A O → List α}
    {C : Transition S A O → Prop} (h : Path M s tr s') (hC : ∀ e ∈ tr, C e) {xs : List α}
    (h0 : R s xs)
    (hstep : ∀ t a t' o xs, R t xs → M.step t a = some (t', o) → C ⟨t, a, o, t'⟩ →
      ∃ ys, R t' ys ∧ outs ⟨t, a, o, t'⟩ ++ ys = xs ++ ins ⟨t, a, o, t'⟩) :
    ∃ ys, R s' ys ∧ tr.flatMap outs ++ ys = xs ++ tr.flatMap ins := by
  refine h.history_invariant
    (I := fun tr t => ∃ ys, R t ys ∧ tr.flatMap outs ++ ys = xs ++ tr.flatMap ins)
    hC ⟨xs, h0, by simp⟩ ?_
  rintro tr t a t' o ⟨ys, hR, hlaw⟩ hs hc
  obtain ⟨zs, hR', hlaw'⟩ := hstep t a t' o ys hR hs hc
  refine ⟨zs, hR', ?_⟩
  simp only [List.flatMap_append, List.flatMap_singleton]
  calc tr.flatMap outs ++ outs ⟨t, a, o, t'⟩ ++ zs
      = tr.flatMap outs ++ (ys ++ ins ⟨t, a, o, t'⟩) := by rw [List.append_assoc, hlaw']
    _ = xs ++ (tr.flatMap ins ++ ins ⟨t, a, o, t'⟩) := by
        rw [← List.append_assoc, hlaw, List.append_assoc]

/-- The law for a run of a machine whose queue is empty at first. -/
theorem Run.fifo {R : S → List α → Prop} {ins outs : Transition S A O → List α}
    (h : Run M tr s) (h0 : R M.init [])
    (hstep : ∀ t a t' o xs, R t xs → M.step t a = some (t', o) →
      ∃ ys, R t' ys ∧ outs ⟨t, a, o, t'⟩ ++ ys = xs ++ ins ⟨t, a, o, t'⟩) :
    ∃ ys, R s ys ∧ tr.flatMap outs ++ ys = tr.flatMap ins := by
  have hlaw := h.toPath.fifo (C := fun _ => True) (fun _ _ => trivial) h0
    fun t a t' o xs hR hs _ => hstep t a t' o xs hR hs
  simpa using hlaw

/-! ## Queues that lose something -/

/-- **When a lossy queue is lossless.**  Each step takes `outs` off the front, drops
`lost` behind it, and puts `ins` at the end.  Then all that went in has come out or is
still inside if and only if no step has lost anything. -/
theorem Path.lossless_iff {R : S → List α → Prop} {ins outs lost : Transition S A O → List α}
    {C : Transition S A O → Prop} (h : Path M s tr s') (hC : ∀ e ∈ tr, C e) {xs : List α}
    (h0 : R s xs)
    (hstep : ∀ t a t' o xs, R t xs → M.step t a = some (t', o) → C ⟨t, a, o, t'⟩ →
      ∃ ys, R t' ys ∧
        outs ⟨t, a, o, t'⟩ ++ lost ⟨t, a, o, t'⟩ ++ ys = xs ++ ins ⟨t, a, o, t'⟩) :
    ∃ ys, R s' ys ∧ (tr.flatMap outs ++ ys = xs ++ tr.flatMap ins ↔ ∀ e ∈ tr, lost e = []) := by
  -- the lengths always add up, and the law holds as long as nothing is lost
  obtain ⟨ys, hR, hlen, hlaw⟩ : ∃ ys, R s' ys ∧
      (tr.flatMap outs).length + (tr.flatMap lost).length + ys.length =
        xs.length + (tr.flatMap ins).length ∧
      (tr.flatMap lost = [] → tr.flatMap outs ++ ys = xs ++ tr.flatMap ins) := by
    refine h.history_invariant (I := fun tr t => ∃ ys, R t ys ∧
      (tr.flatMap outs).length + (tr.flatMap lost).length + ys.length =
        xs.length + (tr.flatMap ins).length ∧
      (tr.flatMap lost = [] → tr.flatMap outs ++ ys = xs ++ tr.flatMap ins))
      hC ⟨xs, h0, by simp, by simp⟩ ?_
    rintro tr t a t' o ⟨ys, hR, hlen, hlaw⟩ hs hc
    obtain ⟨zs, hR', hone⟩ := hstep t a t' o ys hR hs hc
    have honeLen := congrArg List.length hone
    simp only [List.flatMap_append, List.flatMap_singleton, List.length_append,
      List.append_eq_nil_iff] at honeLen ⊢
    refine ⟨zs, hR', by omega, ?_⟩
    rintro ⟨hnone, hnone'⟩
    rw [hnone', List.append_nil] at hone
    rw [List.append_assoc, hone, ← List.append_assoc, hlaw hnone, List.append_assoc]
  refine ⟨ys, hR, ?_, ?_⟩
  · intro heq
    have heqLen := congrArg List.length heq
    simp only [List.length_append] at heqLen
    have hnone : tr.flatMap lost = [] := List.length_eq_zero_iff.1 (by omega)
    exact List.flatMap_eq_nil_iff.1 hnone
  · intro hnone
    exact hlaw (List.flatMap_eq_nil_iff.2 hnone)

/-- **First in, first out or never.**  If every step keeps the order and makes nothing
up, then so does the whole path. -/
theorem Path.lossy_fifo {R : S → List α → Prop} {ins outs : Transition S A O → List α}
    {C : Transition S A O → Prop} (h : Path M s tr s') (hC : ∀ e ∈ tr, C e) {xs : List α}
    (h0 : R s xs)
    (hstep : ∀ t a t' o xs, R t xs → M.step t a = some (t', o) → C ⟨t, a, o, t'⟩ →
      ∃ ys, R t' ys ∧ (outs ⟨t, a, o, t'⟩ ++ ys).Sublist (xs ++ ins ⟨t, a, o, t'⟩)) :
    ∃ ys, R s' ys ∧ (tr.flatMap outs ++ ys).Sublist (xs ++ tr.flatMap ins) := by
  refine h.history_invariant
    (I := fun tr t => ∃ ys, R t ys ∧ (tr.flatMap outs ++ ys).Sublist (xs ++ tr.flatMap ins))
    hC ⟨xs, h0, by simp⟩ ?_
  rintro tr t a t' o ⟨ys, hR, hsub⟩ hs hc
  obtain ⟨zs, hR', hone⟩ := hstep t a t' o ys hR hs hc
  refine ⟨zs, hR', ?_⟩
  simp only [List.flatMap_append, List.flatMap_singleton]
  have hfront : (tr.flatMap outs ++ (outs ⟨t, a, o, t'⟩ ++ zs)).Sublist
      (tr.flatMap outs ++ (ys ++ ins ⟨t, a, o, t'⟩)) := hone.append_left _
  have hback : (tr.flatMap outs ++ ys ++ ins ⟨t, a, o, t'⟩).Sublist
      (xs ++ tr.flatMap ins ++ ins ⟨t, a, o, t'⟩) := hsub.append_right _
  rw [← List.append_assoc, ← List.append_assoc] at hfront
  rw [← List.append_assoc]
  exact hfront.trans hback

/-! ## Buffers behind a pointer -/

/-- The block behind a pointer holds `xs` and nothing else, `size` is their number, and
the pointer is `NULL` if there are none. -/
structure Buffered (buff : Option (List α)) (size : Nat) (xs : List α) : Prop where
  buff_eq : buff = if xs = [] then none else some xs
  size_eq : size = xs.length

namespace Buffered

variable {buff : Option (List α)} {size : Nat} {xs : List α}

theorem nil : Buffered (none : Option (List α)) 0 [] := ⟨rfl, rfl⟩

theorem of_ne_nil (h : xs ≠ []) : Buffered (some xs) xs.length xs := ⟨(if_neg h).symm, rfl⟩

theorem getD_buff (h : Buffered buff size xs) : buff.getD [] = xs := by
  rw [h.buff_eq]
  split
  · rename_i hnil
    rw [hnil]
    rfl
  · rfl

theorem buff_eq_none_iff (h : Buffered buff size xs) : buff = none ↔ size = 0 := by
  rw [h.buff_eq, h.size_eq, List.length_eq_zero_iff]
  split <;> simp_all

/-- Without a block there is nothing. -/
theorem eq_nil (h : Buffered buff size xs) (hb : buff = none) : xs = [] := by
  rw [← h.getD_buff, hb]
  rfl

/-- In a block there is something, and all of the block is in use. -/
theorem of_some (h : Buffered buff size xs) {b : List α} (hb : buff = some b) :
    xs = b ∧ xs ≠ [] := by
  refine ⟨by rw [← h.getD_buff, hb]; rfl, ?_⟩
  intro hnil
  have hnone := h.buff_eq
  rw [if_pos hnil, hb] at hnone
  exact absurd hnone (by simp)

end Buffered

end LuatosPc
