/-
# Sums with the carry brought round

A one's complement sum over digits of base `m + 1` adds the carry out of the top back in at the
bottom, so it is a sum modulo `m` that keeps one more thing: whether anything at all was added. Two
totals are the *same* sum when they agree on both, and every total is the same as exactly one number
up to `m`, its *wrapped* form. What folds, swaps or regroups a sum has only to keep it the same; the
number that comes out is then settled.
-/
import Mathlib.Tactic

namespace LuatosPc.Ones

variable {m a b c d : Nat}

/-- The same one's complement sum: equal modulo `m`, and nothing added on both sides or on neither. -/
def Same (m a b : Nat) : Prop := a ≡ b [MOD m] ∧ (a = 0 ↔ b = 0)

theorem Same.refl (m a : Nat) : Same m a a := ⟨rfl, Iff.rfl⟩

theorem Same.symm (h : Same m a b) : Same m b a := ⟨h.1.symm, h.2.symm⟩

theorem Same.trans (h : Same m a b) (h' : Same m b c) : Same m a c :=
  ⟨h.1.trans h'.1, h.2.trans h'.2⟩

theorem Same.add (h : Same m a b) (h' : Same m c d) : Same m (a + c) (b + d) := by
  refine ⟨h.1.add h'.1, ?_⟩
  have h0 := h.2
  have h0' := h'.2
  omega

theorem Same.mul_left (c : Nat) (h : Same m a b) : Same m (c * a) (c * b) := by
  refine ⟨h.1.mul_left c, ?_⟩
  rw [Nat.mul_eq_zero, Nat.mul_eq_zero, h.2]

/-- Taking digits of weight `m + 1` down to weight one keeps the sum the same. -/
theorem same_carry (m a b : Nat) : Same m ((m + 1) * a + b) (a + b) := by
  constructor
  · have h : (m + 1) * a + b = (a + b) + m * a := by ring
    rw [h]
    exact Nat.add_mul_mod_self_left _ _ _
  · rw [Nat.add_eq_zero_iff, Nat.add_eq_zero_iff, Nat.mul_eq_zero]
    simp

/-- Two numbers up to `m` that are the same sum are one number: zero and `m` are told apart. -/
theorem Same.eq_of_le (h : Same m a b) (ha : a ≤ m) (hb : b ≤ m) : a = b := by
  have hmod : a % m = b % m := h.1
  have hzero := h.2
  rcases ha.lt_or_eq with ha' | rfl <;> rcases hb.lt_or_eq with hb' | rfl
  · rwa [Nat.mod_eq_of_lt ha', Nat.mod_eq_of_lt hb'] at hmod
  · rw [Nat.mod_eq_of_lt ha', Nat.mod_self] at hmod
    omega
  · rw [Nat.mod_eq_of_lt hb', Nat.mod_self] at hmod
    omega
  · rfl

/-- The number up to `m` that is the same sum as `a`. -/
def wrap (m a : Nat) : Nat := if a = 0 then 0 else (a - 1) % m + 1

theorem wrap_le (hm : 0 < m) (a : Nat) : wrap m a ≤ m := by
  unfold wrap
  split
  · exact Nat.zero_le m
  · exact Nat.mod_lt _ hm

theorem same_wrap (m a : Nat) : Same m (wrap m a) a := by
  unfold wrap
  split
  case isTrue h => rw [h]; exact Same.refl m 0
  case isFalse h =>
    refine ⟨?_, by omega⟩
    have hmod : (a - 1) % m + 1 ≡ (a - 1) + 1 [MOD m] := (Nat.mod_modEq _ _).add_right 1
    rwa [Nat.sub_add_cancel (Nat.one_le_iff_ne_zero.mpr h)] at hmod

theorem wrap_eq_of_same (hm : 0 < m) (h : Same m a b) : wrap m a = wrap m b :=
  (((same_wrap m a).trans h).trans (same_wrap m b).symm).eq_of_le (wrap_le hm a) (wrap_le hm b)

theorem Same.eq_wrap (h : Same m a b) (ha : a ≤ m) : a = wrap m b := by
  rcases m.eq_zero_or_pos with rfl | hm
  · have hzero : a = 0 := Nat.le_zero.mp ha
    rw [hzero, h.2.mp hzero, wrap, if_pos rfl]
  · exact (h.trans (same_wrap m b).symm).eq_of_le ha (wrap_le hm b)

theorem wrap_eq_self_iff (hm : 0 < m) : wrap m a = m ↔ 0 < a ∧ a % m = 0 := by
  constructor
  · intro h
    have hsame := same_wrap m a
    rw [h] at hsame
    refine ⟨Nat.pos_of_ne_zero fun h0 => hm.ne' (hsame.2.mpr h0), ?_⟩
    have hmod : m % m = a % m := hsame.1
    rwa [Nat.mod_self, eq_comm] at hmod
  · rintro ⟨hpos, hmod⟩
    have hsame : Same m m a := ⟨(Nat.mod_self m).trans hmod.symm, by omega⟩
    exact (hsame.eq_wrap le_rfl).symm

/-- One round of bringing the carry round. -/
def fold (m u : Nat) : Nat := u / (m + 1) + u % (m + 1)

theorem same_fold (m u : Nat) : Same m (fold m u) u := by
  have h := same_carry m (u / (m + 1)) (u % (m + 1))
  rw [Nat.div_add_mod] at h
  exact h.symm

/-- One round is enough for two summands. -/
theorem fold_add_le (ha : a ≤ m) (hb : b ≤ m) : fold m (a + b) ≤ m := by
  unfold fold
  rcases Nat.lt_or_ge (a + b) (m + 1) with h | h
  · rw [Nat.div_eq_of_lt h, Nat.mod_eq_of_lt h]
    omega
  · have hdiv : (a + b) / (m + 1) = 1 := Nat.div_eq_of_lt_le (by omega) (by omega)
    have hmod := Nat.div_add_mod (a + b) (m + 1)
    rw [hdiv] at hmod ⊢
    omega

/-- Two rounds are enough for anything below the square of the base. -/
theorem fold_fold_le {u : Nat} (hu : u < (m + 1) * (m + 1)) : fold m (fold m u) ≤ m := by
  have hdiv : u / (m + 1) < m + 1 := Nat.div_lt_of_lt_mul hu
  have hmod : u % (m + 1) < m + 1 := Nat.mod_lt _ m.succ_pos
  exact fold_add_le (by omega) (by omega)

/-- So two rounds compute the wrapped form. -/
theorem fold_fold_eq_wrap {u : Nat} (hu : u < (m + 1) * (m + 1)) :
    fold m (fold m u) = wrap m u :=
  ((same_fold m _).trans (same_fold m u)).eq_wrap (fold_fold_le hu)

/-- A sum and its complement add up to `m`, and so does the whole that holds both. -/
theorem wrap_add_complement (m a : Nat) (hm : 0 < m) : wrap m (a + (m - wrap m a)) = m := by
  have h := (same_wrap m a).symm.add (Same.refl m (m - wrap m a))
  rw [Nat.add_sub_cancel' (wrap_le hm a)] at h
  exact (h.symm.eq_wrap le_rfl).symm

/-- Adding `m` to a sum that is already `m` leaves it there. -/
theorem wrap_add_self (hm : 0 < m) (h : wrap m a = m) : wrap m (a + m) = m := by
  have hsum := (same_wrap m a).symm.add (Same.refl m m)
  rw [h] at hsum
  have hm2 : Same m (m + m) m := ⟨by simp [Nat.ModEq], by omega⟩
  exact (((hsum.trans hm2).symm).eq_wrap le_rfl).symm

end LuatosPc.Ones
