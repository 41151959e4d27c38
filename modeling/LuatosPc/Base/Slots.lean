import Mathlib.Data.Set.Card

/-!
# Tables of slots

A table of fixed size whose slots are searched from the first to the last, and in which
nothing owns more than one slot.

* `findSome_of_unique`, `find_of_unique` — a search that only one slot answers.
* `Exclusive` — nothing is in two slots; it stays so when something new comes in or
  something goes.
* `ncard_owners_eq_iff` — the table is full if and only if it has as many owners as
  slots.
-/

namespace LuatosPc
namespace Slots

variable {n : Nat} {α β : Type*}

/-- A search that only one slot answers. -/
theorem findSome_of_unique {f : Fin n → Option α} {i : Fin n} {x : α} (hi : f i = some x)
    (huniq : ∀ j y, f j = some y → j = i) : Fin.findSome? f = some x := by
  rw [Fin.findSome?_eq_some_iff]
  refine ⟨i, hi, ?_⟩
  intro j hj
  cases hf : f j with
  | none => rfl
  | some y => exact absurd (huniq j y hf) hj.ne

/-- The first slot with a property that only one slot has. -/
theorem find_of_unique {p : Fin n → Bool} {i : Fin n} (hi : p i = true)
    (huniq : ∀ j, p j = true → j = i) : Fin.find? p = some i := by
  rw [Fin.find?_eq_some_iff]
  refine ⟨hi, ?_⟩
  intro j hj
  by_contra hp
  exact hj.ne (huniq j (Bool.eq_true_of_not_eq_false hp))

section

variable {ι : Type*} {f : ι → Option β}

/-- Nothing is in two slots. -/
def Exclusive (f : ι → Option β) : Prop := ∀ ⦃i j b⦄, f i = some b → f j = some b → i = j

variable [DecidableEq ι]

theorem Exclusive.insert (h : Exclusive f) {i : ι} {b : β} (hnew : ∀ j, f j ≠ some b) :
    Exclusive (Function.update f i (some b)) := by
  -- what is in slot `i` now is in no other slot
  have hother : ∀ {j}, Function.update f i (some b) j = some b → j = i := by
    intro j hj
    by_contra hji
    rw [Function.update_of_ne hji] at hj
    exact hnew j hj
  intro j k c hj hk
  by_cases hji : j = i
  · subst hji
    rw [Function.update_self, Option.some.injEq] at hj
    subst hj
    exact (hother hk).symm
  · by_cases hki : k = i
    · subst hki
      rw [Function.update_self, Option.some.injEq] at hk
      subst hk
      exact hother hj
    · rw [Function.update_of_ne hji] at hj
      rw [Function.update_of_ne hki] at hk
      exact h hj hk

theorem Exclusive.erase (h : Exclusive f) (i : ι) : Exclusive (Function.update f i none) := by
  have hsub : ∀ {j b}, Function.update f i none j = some b → f j = some b := by
    intro j b hj
    by_cases hji : j = i
    · rw [hji, Function.update_self] at hj
      cases hj
    · rwa [Function.update_of_ne hji] at hj
  intro j k b hj hk
  exact h (hsub hj) (hsub hk)

end

/-- **Owners and slots.**  If every owner owns one slot, then the owners are as many as the
slots if and only if no slot is free. -/
theorem ncard_owners_eq_iff {owner : Fin n → Option β} {live : Set β}
    (hlive : ∀ t, t ∈ live ↔ ∃ i, owner i = some t) (hinj : Exclusive owner) :
    live.ncard = n ↔ ∀ i, owner i ≠ none := by
  have himage : Set.image some live = Set.image owner {i | owner i ≠ none} := by
    ext x
    constructor
    · rintro ⟨t, ht, rfl⟩
      obtain ⟨i, hi⟩ := (hlive t).1 ht
      exact ⟨i, by simp [hi], hi⟩
    · rintro ⟨i, hi, rfl⟩
      obtain ⟨t, ht⟩ := Option.ne_none_iff_exists'.1 hi
      exact ⟨t, (hlive t).2 ⟨i, ht⟩, ht.symm⟩
  have hinjOn : Set.InjOn owner {i | owner i ≠ none} := by
    intro i hi j _ heq
    obtain ⟨t, ht⟩ := Option.ne_none_iff_exists'.1 hi
    exact hinj ht (heq ▸ ht)
  have hcard : live.ncard = {i | owner i ≠ none}.ncard := by
    rw [← Set.ncard_image_of_injective live (Option.some_injective β), himage, hinjOn.ncard_image]
  have hfull : {i | owner i ≠ none} = Set.univ ↔ {i | owner i ≠ none}.ncard = n := by
    rw [Set.eq_univ_iff_ncard, Nat.card_fin]
  rw [hcard, ← hfull, Set.eq_univ_iff_forall]
  rfl

end Slots
end LuatosPc
