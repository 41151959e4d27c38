import Mathlib.Data.List.Basic
import Mathlib.Data.Fin.Basic
import Mathlib.Tactic.Linarith

/-!
# Decimal digits and the Luhn check

* `digitBytes` — digits as characters; `decimal` — a number as `%u` writes it, which
  is a row of digits (`decimal_eq_digitBytes`).
* `altSum` — the sum of digits with every second one doubled and reduced to its digit
  sum, from the left; `altSum_reverse` — the same from the right.
* `LuhnValid` — from the right, with the last digit not doubled, the sum is divisible by
  ten; `luhnValid_concat_iff` — the one digit that makes a number valid.
-/

namespace LuatosPc.Decimal

/-! ## Digits as characters -/

/-- The character of a digit. -/
def digitByte (d : Fin 10) : UInt8 := 48 + UInt8.ofNat d

/-- The characters of digits. -/
def digitBytes (ds : List (Fin 10)) : List UInt8 := ds.map digitByte

/-- `isdigit`. -/
def isdigit (c : UInt8) : Bool := 48 ≤ c && c ≤ 57

@[simp]
theorem isdigit_digitByte (d : Fin 10) : isdigit (digitByte d) = true := by
  revert d
  decide

@[simp]
theorem digitByte_toNat (d : Fin 10) : (digitByte d).toNat = 48 + d := by
  revert d
  decide

@[simp]
theorem length_digitBytes (ds : List (Fin 10)) : (digitBytes ds).length = ds.length :=
  List.length_map _

theorem digitBytes_append (ds es : List (Fin 10)) :
    digitBytes (ds ++ es) = digitBytes ds ++ digitBytes es :=
  List.map_append

/-- No character of a digit is the end of a string. -/
theorem zero_notMem_digitBytes (ds : List (Fin 10)) : 0 ∉ digitBytes ds := by
  intro h
  obtain ⟨d, -, hd⟩ := List.mem_map.1 h
  revert d
  decide

/-- A number in decimal. -/
def decimal (n : Nat) : List UInt8 := (Nat.toDigits 10 n).map fun c => UInt8.ofNat c.toNat

theorem digitChar_toNat (d : Fin 10) :
    UInt8.ofNat (Nat.digitChar d).toNat = digitByte d := by
  revert d
  decide

/-- The last digit comes off the end. -/
theorem decimal_of_le {n : Nat} (h : 10 ≤ n) :
    decimal n = decimal (n / 10) ++ [digitByte ⟨n % 10, Nat.mod_lt _ (by decide)⟩] := by
  rw [decimal, Nat.toDigits_eq_if (by decide), if_neg (by omega), List.map_append, ← decimal]
  exact congrArg (_ ++ [·]) (digitChar_toNat ⟨n % 10, Nat.mod_lt _ (by decide)⟩)

theorem decimal_of_lt {n : Nat} (h : n < 10) : decimal n = [digitByte ⟨n, h⟩] := by
  rw [decimal, Nat.toDigits_of_lt_base h]
  exact congrArg ([·]) (digitChar_toNat ⟨n, h⟩)

/-- **A number of `k + 1` digits** is written with that many. -/
theorem decimal_eq_digitBytes {k n : Nat} (hlow : 10 ^ k ≤ n) (hhigh : n < 10 ^ (k + 1)) :
    ∃ ds, decimal n = digitBytes ds ∧ ds.length = k + 1 := by
  induction k generalizing n with
  | zero => exact ⟨[⟨n, hhigh⟩], decimal_of_lt hhigh, rfl⟩
  | succ k ih =>
    have hten : 10 ≤ n := by
      have := Nat.one_le_pow k 10 (by decide)
      rw [Nat.pow_succ] at hlow
      omega
    have hlow' : 10 ^ k ≤ n / 10 := by
      rw [Nat.pow_succ] at hlow
      omega
    have hhigh' : n / 10 < 10 ^ (k + 1) := by
      rw [Nat.pow_succ] at hhigh
      omega
    obtain ⟨ds, hds, hlen⟩ := ih hlow' hhigh'
    refine ⟨ds ++ [⟨n % 10, Nat.mod_lt _ (by decide)⟩], ?_, ?_⟩
    · rw [decimal_of_le hten, hds, digitBytes_append]
      rfl
    · rw [List.length_append, hlen, List.length_singleton]

/-- A number below `10 ^ (k + 1)` has between one and `k + 1` digits. -/
theorem length_decimal {k n : Nat} (h : n < 10 ^ (k + 1)) :
    0 < (decimal n).length ∧ (decimal n).length ≤ k + 1 := by
  induction k generalizing n with
  | zero =>
    rw [decimal_of_lt h]
    exact ⟨Nat.one_pos, le_rfl⟩
  | succ k ih =>
    by_cases hten : 10 ≤ n
    · have hdiv : n / 10 < 10 ^ (k + 1) := by
        rw [Nat.pow_succ] at h
        omega
      have hle := (ih hdiv).2
      rw [decimal_of_le hten, List.length_append, List.length_singleton]
      omega
    · rw [decimal_of_lt (Nat.lt_of_not_le hten), List.length_singleton]
      omega

/-! ## The Luhn check -/

/-- A digit is doubled, and the digits of the result are added. -/
def doubled (d : Fin 10) : Nat := if 2 * d.val > 9 then 2 * d / 10 + 2 * d % 10 else 2 * d

/-- The sum of digits with every second one doubled, where `b` tells whether the first one is. -/
def altSum (b : Bool) : List (Fin 10) → Nat
  | [] => 0
  | d :: ds => (if b then doubled d else d) + altSum (!b) ds

/-- From the right, every second digit is doubled, and the sum is divisible by ten. -/
def LuhnValid (ds : List (Fin 10)) : Prop := altSum false ds.reverse % 10 = 0

instance (ds : List (Fin 10)) : Decidable (LuhnValid ds) :=
  inferInstanceAs (Decidable (_ = 0))

/-- The digits behind go on where the ones before end. -/
theorem altSum_append (b : Bool) (ds es : List (Fin 10)) :
    altSum b (ds ++ es) = altSum b ds + altSum (b ^^ (ds.length % 2 == 1)) es := by
  induction ds generalizing b with
  | nil => simp [altSum]
  | cons d ds ih =>
    have hparity : (!b ^^ (ds.length % 2 == 1)) = (b ^^ ((d :: ds).length % 2 == 1)) := by
      rw [List.length_cons]
      obtain h | h := Nat.mod_two_eq_zero_or_one ds.length
      · rw [h, show (ds.length + 1) % 2 = 1 by omega]
        cases b <;> rfl
      · rw [h, show (ds.length + 1) % 2 = 0 by omega]
        cases b <;> rfl
    rw [List.cons_append, altSum, altSum, ih, hparity, Nat.add_assoc]

/-- **From the other end**, an even number of digits is doubled in the other places. -/
theorem altSum_reverse (b : Bool) (ds : List (Fin 10)) :
    altSum b ds.reverse = altSum (b ^^ (ds.length % 2 == 0)) ds := by
  induction ds generalizing b with
  | nil => rfl
  | cons d ds ih =>
    have hparity : ((d :: ds).length % 2 == 0) = (ds.length % 2 == 1) := by
      rw [List.length_cons]
      obtain h | h := Nat.mod_two_eq_zero_or_one ds.length
      · rw [h, show (ds.length + 1) % 2 = 1 by omega]
        rfl
      · rw [h, show (ds.length + 1) % 2 = 0 by omega]
        rfl
    have hrest : (!(b ^^ (ds.length % 2 == 1))) = (b ^^ (ds.length % 2 == 0)) := by
      obtain h | h := Nat.mod_two_eq_zero_or_one ds.length <;> rw [h] <;> cases b <;> rfl
    rw [List.reverse_cons, altSum_append, List.length_reverse, ih, hparity]
    simp only [altSum, hrest]
    omega

/-- **The digit that makes a number valid**: there is one, and no other. -/
theorem luhnValid_concat_iff (ds : List (Fin 10)) (c : Fin 10) :
    LuhnValid (ds ++ [c]) ↔ c.val = (10 - altSum true ds.reverse % 10) % 10 := by
  have hsum : altSum false (ds ++ [c]).reverse = c + altSum true ds.reverse := by
    rw [List.reverse_append, List.reverse_singleton, List.singleton_append]
    rfl
  have hc := c.isLt
  rw [LuhnValid, hsum]
  omega

example : LuhnValid [4, 9, 0, 1, 5, 4, 2, 0, 3, 2, 3, 7, 5, 1, 8] := by decide

end LuatosPc.Decimal
