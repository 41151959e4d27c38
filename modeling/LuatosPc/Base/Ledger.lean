import LuatosPc.Base.Machine

/-!
# Ledgers: what is taken on and what is settled

Requests that are accepted now and answered later, blocks of memory that are handed
out and given back: where the order does not matter, the law of a queue becomes the
law of a ledger.  What has been settled and what is still open add up to what was
open at first and what has been taken on, in any commutative monoid.

* `Path.ledger`, `Run.ledger` — the books balance along a part of a run and along a
  run, if they balance at every step.
* `Path.log` — a list that every step adds something to at its end holds what the
  steps have added, in their order.
-/

namespace LuatosPc

variable {S A O : Type*} {M : Machine S A O} {tr : List (Transition S A O)} {s s' : S}

/-- **The books balance.**  If every step that meets `C` settles `out` of what is open
and takes on `inn`, then so does the whole path. -/
theorem Path.ledger {K : Type*} [AddCommMonoid K] {w : S → K} {inn out : Transition S A O → K}
    {C : Transition S A O → Prop} (h : Path M s tr s') (hC : ∀ e ∈ tr, C e)
    (hstep : ∀ t a t' o, M.step t a = some (t', o) → C ⟨t, a, o, t'⟩ →
      out ⟨t, a, o, t'⟩ + w t' = w t + inn ⟨t, a, o, t'⟩) :
    (tr.map out).sum + w s' = w s + (tr.map inn).sum := by
  refine h.history_invariant (I := fun tr t => (tr.map out).sum + w t = w s + (tr.map inn).sum)
    hC (by simp) ?_
  intro tr t a t' o hlaw hs hc
  simp only [List.map_append, List.map_singleton, List.sum_append, List.sum_singleton]
  calc (tr.map out).sum + out ⟨t, a, o, t'⟩ + w t'
      = (tr.map out).sum + (w t + inn ⟨t, a, o, t'⟩) := by rw [add_assoc, hstep t a t' o hs hc]
    _ = w s + ((tr.map inn).sum + inn ⟨t, a, o, t'⟩) := by rw [← add_assoc, hlaw, add_assoc]

/-- The books of a run of a machine that has nothing open at first. -/
theorem Run.ledger {K : Type*} [AddCommMonoid K] {w : S → K} {inn out : Transition S A O → K}
    (h : Run M tr s) (h0 : w M.init = 0)
    (hstep : ∀ t a t' o, M.step t a = some (t', o) →
      out ⟨t, a, o, t'⟩ + w t' = w t + inn ⟨t, a, o, t'⟩) :
    (tr.map out).sum + w s = (tr.map inn).sum := by
  have hlaw := h.toPath.ledger (C := fun _ => True) (fun _ _ => trivial)
    fun t a t' o hs _ => hstep t a t' o hs
  rw [hlaw, h0, zero_add]

/-- A list that grows at its end holds what the steps have added to it. -/
theorem Path.log {α : Type*} {l : S → List α} {f : Transition S A O → List α}
    (h : Path M s tr s')
    (hstep : ∀ t a t' o, M.step t a = some (t', o) → l t' = l t ++ f ⟨t, a, o, t'⟩) :
    l s' = l s ++ tr.flatMap f := by
  refine h.history_invariant (I := fun tr t => l t = l s ++ tr.flatMap f) (C := fun _ => True)
    (fun _ _ => trivial) (by simp) ?_
  intro tr t a t' o hlog hs _
  rw [hstep t a t' o hs, hlog, List.flatMap_append, List.flatMap_singleton, List.append_assoc]

end LuatosPc
