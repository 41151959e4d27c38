import Mathlib.Data.List.Basic
import Mathlib.Data.Nat.ModEq
import Mathlib.Logic.Function.Basic

/-!
# Ring buffers

A ring of `n` places with a head and a tail: what is stored begins at the head and goes
round up to, and not including, the tail.  One place always stays free, so that an empty
ring can be told from a full one.

* `count` — how many places are in use; `stored` — what is in them, the oldest first.
* `stored_eq_cons` — the oldest is at the head, and moving the head on removes it.
* `stored_push` — writing at the tail and moving it on adds the newest.
* `keep` — a list of bounded length that loses its oldest element to the newest;
  `keep_suffix` — it always consists of the newest ones.
-/

namespace LuatosPc
namespace Ring

variable {α : Type*} {n head tail : Nat}

/-- The number of places in use. -/
def count (n head tail : Nat) : Nat := if head ≤ tail then tail - head else n - head + tail

theorem count_lt (hhead : head < n) (htail : tail < n) : count n head tail < n := by
  unfold count
  split <;> omega

theorem count_eq_zero_iff (hhead : head < n) : count n head tail = 0 ↔ head = tail := by
  unfold count
  split <;> omega

/-- The index after the given one. -/
theorem next_eq {i : Nat} (hi : i < n) : (i + 1) % n = if i + 1 = n then 0 else i + 1 := by
  split
  · rename_i h
    rw [h, Nat.mod_self]
  · exact Nat.mod_eq_of_lt (by omega)

/-- Without a free place but one, the tail is right before the head. -/
theorem count_eq_pred_iff (hhead : head < n) (htail : tail < n) :
    count n head tail = n - 1 ↔ (tail + 1) % n = head := by
  rw [next_eq htail]
  unfold count
  split <;> split <;> omega

theorem count_next_head (hhead : head < n) (htail : tail < n) (hne : head ≠ tail) :
    count n head tail = count n ((head + 1) % n) tail + 1 := by
  rw [next_eq hhead]
  unfold count
  split <;> split <;> split <;> omega

theorem count_next_tail (hhead : head < n) (htail : tail < n) (hfree : (tail + 1) % n ≠ head) :
    count n head ((tail + 1) % n) = count n head tail + 1 := by
  rw [next_eq htail] at hfree ⊢
  unfold count
  split_ifs at hfree ⊢ <;> omega

/-- The tail is as far behind the head as places are in use. -/
theorem head_add_count (hhead : head < n) (htail : tail < n) :
    (head + count n head tail) % n = tail := by
  unfold count
  split
  · rw [Nat.add_sub_cancel' (by assumption), Nat.mod_eq_of_lt htail]
  · have hsum : head + (n - head + tail) = n + tail := by omega
    rw [hsum, Nat.add_mod_left, Nat.mod_eq_of_lt htail]

/-- What is stored, the oldest first. -/
def stored (buf : Nat → α) (n head tail : Nat) : List α :=
  (List.range (count n head tail)).map fun k => buf ((head + k) % n)

theorem length_stored (buf : Nat → α) : (stored buf n head tail).length = count n head tail := by
  simp [stored]

theorem stored_eq_nil_iff (buf : Nat → α) (hhead : head < n) :
    stored buf n head tail = [] ↔ head = tail := by
  rw [← List.length_eq_zero_iff, length_stored, count_eq_zero_iff hhead]

/-- **The oldest** is at the head. -/
theorem stored_eq_cons (buf : Nat → α) (hhead : head < n) (htail : tail < n) (hne : head ≠ tail) :
    stored buf n head tail = buf head :: stored buf n ((head + 1) % n) tail := by
  unfold stored
  rw [count_next_head hhead htail hne, List.range_succ_eq_map, List.map_cons, List.map_map,
    Nat.add_zero, Nat.mod_eq_of_lt hhead]
  congr 1
  refine List.map_congr_left ?_
  intro k _
  show buf ((head + (k + 1)) % n) = buf (((head + 1) % n + k) % n)
  rw [Nat.mod_add_mod]
  congr 2
  omega

/-- **The newest** goes to the tail, as long as a place stays free. -/
theorem stored_push (buf : Nat → α) (x : α) (hhead : head < n) (htail : tail < n)
    (hfree : (tail + 1) % n ≠ head) :
    stored (Function.update buf tail x) n head ((tail + 1) % n) =
      stored buf n head tail ++ [x] := by
  unfold stored
  rw [count_next_tail hhead htail hfree, List.range_succ, List.map_append, List.map_singleton,
    head_add_count hhead htail, Function.update_self]
  congr 1
  refine List.map_congr_left ?_
  intro k hk
  refine Function.update_of_ne ?_ _ _
  -- only the place behind the last one is the tail
  intro heq
  rw [List.mem_range] at hk
  have hlt := count_lt hhead htail
  have hsum := head_add_count hhead htail
  have hmod : (head + k) % n = (head + count n head tail) % n := heq.trans hsum.symm
  have hkn : k % n = count n head tail % n := Nat.ModEq.add_left_cancel' head hmod
  rw [Nat.mod_eq_of_lt (Nat.lt_trans hk hlt), Nat.mod_eq_of_lt hlt] at hkn
  omega

/-! ## Keeping the newest -/

/-- Add `x` behind `l`, which has room for `cap` elements: of `cap` others the oldest is
lost. -/
def keep (cap : Nat) (l : List α) (x : α) : List α := (if l.length = cap then l.tail else l) ++ [x]

theorem length_keep_le {cap : Nat} {l : List α} (hcap : 0 < cap) (h : l.length ≤ cap) (x : α) :
    (keep cap l x).length ≤ cap := by
  rw [keep, List.length_append, List.length_singleton]
  split
  · rw [List.length_tail]
    omega
  · omega

/-- **The newest are kept**: what is stored is the end of all that was added. -/
theorem keep_suffix {cap : Nat} {l xs : List α} (h : l <:+ xs) (x : α) :
    keep cap l x <:+ xs ++ [x] := by
  have hkept : (if l.length = cap then l.tail else l) <:+ xs := by
    split
    · exact (List.tail_suffix l).trans h
    · exact h
  obtain ⟨old, rfl⟩ := hkept
  exact ⟨old, by rw [keep, List.append_assoc]⟩

end Ring
end LuatosPc
