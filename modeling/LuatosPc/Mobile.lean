import LuatosPc.Base.Bytes
import LuatosPc.Base.Decimal

/-!
# The generated IMEI

The model of `luat_mobile_get_imei` and `generate_imei_check_digit` of `luat_mobile_pc.c`:
a number of 15 digits is made from the id of the device.  The last digit shall be the
check digit of the other 14.

* `Crypto` — the hash and the hexadecimal numbers, as far as the source relies on them.
* `checkLoop`, `generateImeiCheckDigit`, `hexLoop`, `snprintf`, `luatMobileGetImei` — the
  functions of the source.
* `generateImeiCheckDigit_eq` — the check digit is that of the sum with the digits at the
  even places doubled; the Luhn check doubles those at the odd places.
* `imei_luhn_iff` — which numbers are valid.
-/

namespace LuatosPc.Mobile

open LuatosPc.Bytes LuatosPc.Decimal

/-! ## The functions of the source -/

/-- `luat_crypto_md` with `"MD5"` and `luat_str_tohex`. -/
structure Crypto where
  md5 : List UInt8 → List UInt8
  tohex : List UInt8 → List UInt8
  length_md5 : ∀ id, (md5 id).length = 16
  length_tohex : ∀ bs, (tohex bs).length = 2 * bs.length

/-- The loop of `generate_imei_check_digit`, with the number of rounds that remain. -/
def checkLoop (imei : Block) : Nat → Nat → Nat → Option UInt8
  | 0, _, sum => some (UInt8.ofNat ((10 - sum % 10) % 10))
  | n + 1, i, sum => do
    let c ← imei[i]?
    if isdigit c = false then return 0xFF
    let digit := c.toNat - 48
    let digit :=
      if (13 - (i : Int)) % 2 = 1 then
        let digit := digit * 2
        if digit > 9 then digit / 10 + digit % 10 else digit
      else digit
    checkLoop imei n (i + 1) (sum + digit)

def generateImeiCheckDigit (imei : Block) : Option UInt8 := checkLoop imei 14 0 0

/-- What a character counts in a hexadecimal number; others than digits count nothing. -/
def hexDigit (c : UInt8) : UInt64 :=
  if 48 ≤ c ∧ c ≤ 57 then (c - 48).toUInt64
  else if 97 ≤ c ∧ c ≤ 102 then (c - 97).toUInt64 + 10
  else if 65 ≤ c ∧ c ≤ 70 then (c - 65).toUInt64 + 10
  else 0

/-- The loop of `luat_mobile_get_imei`. -/
def hexLoop (hexbuff : Block) : Nat → Nat → UInt64 → Option UInt64
  | 0, _, num => some num
  | n + 1, i, num => do
    let c ← hexbuff[i]?
    if c = 0 then return num
    hexLoop hexbuff n (i + 1) (num * 16 + hexDigit c)

/-- `snprintf` of a string. -/
def snprintf (buff : Block) (bufLen : Nat) (s : List UInt8) : Option Block :=
  if bufLen = 0 then some buff else store buff 0 (s.take (bufLen - 1) ++ [0])

/-- `luat_mobile_get_imei`, where `uuid` is the id of the device. -/
def luatMobileGetImei (crypto : Crypto) (uuid : List UInt8) (buff : Block) (bufLen : Nat) :
    Option (Int × Block) :=
  if uuid.length > 0 then do
    let hexbuff := crypto.tohex (crypto.md5 uuid) ++ [0]
    let num ← hexLoop hexbuff 16 0 0
    let num := num % 900000000 + 100000000
    let buff ← snprintf buff bufLen (ascii "86228905" ++ decimal num.toNat)
    let buff ← poke buff 15 0
    let check ← generateImeiCheckDigit buff
    let buff ← poke buff 14 (48 + check)
    return (1, buff)
  else return (-1, buff)

/-! ## The check digit -/

/-- One digit, as the loop adds it. -/
theorem digit_eq (b : Prop) [Decidable b] (d : Fin 10) :
    (if b then
        if ((digitByte d).toNat - 48) * 2 > 9 then
          ((digitByte d).toNat - 48) * 2 / 10 + ((digitByte d).toNat - 48) * 2 % 10
        else ((digitByte d).toNat - 48) * 2
      else (digitByte d).toNat - 48) =
      if b then doubled d else d := by
  rw [digitByte_toNat, Nat.add_sub_cancel_left, doubled, Nat.mul_comm]

/-- **The loop** adds up the digits that remain. -/
theorem checkLoop_eq {imei : Block} (ds : List (Fin 10)) (rest : List UInt8) (i sum : Nat)
    (h : imei.drop i = digitBytes ds ++ rest) :
    checkLoop imei ds.length i sum = some (UInt8.ofNat
      ((10 - (sum + altSum (decide ((13 - (i : Int)) % 2 = 1)) ds) % 10) % 10)) := by
  induction ds generalizing i sum with
  | nil => rfl
  | cons d ds ih =>
    have hchar : imei[i]? = some (digitByte d) := by
      have := congrArg (·[0]?) h
      simpa [digitBytes] using this
    have hdrop : imei.drop (i + 1) = digitBytes ds ++ rest := by
      have := congrArg (List.drop 1) h
      simpa [digitBytes] using this
    have hparity : decide ((13 - ((i + 1 : Nat) : Int)) % 2 = 1) =
        !decide ((13 - (i : Int)) % 2 = 1) := by
      rw [← decide_not, decide_eq_decide]
      omega
    rw [List.length_cons, checkLoop, hchar]
    simp only [Option.bind_eq_bind, Option.bind_some, isdigit_digitByte, Bool.true_eq_false,
      if_false, digit_eq]
    rw [ih _ _ hdrop, hparity, altSum, Nat.add_assoc]
    simp only [decide_eq_true_eq]

/-- The digit that brings the sum, with the digits at the even places doubled, to a multiple of
ten. -/
def checkDigit (ds : List (Fin 10)) : Fin 10 :=
  ⟨(10 - altSum true ds % 10) % 10, Nat.mod_lt _ (by decide)⟩

/-- **The check digit** of 14 digits. -/
theorem generateImeiCheckDigit_eq {ds : List (Fin 10)} (hlen : ds.length = 14)
    (rest : List UInt8) :
    generateImeiCheckDigit (digitBytes ds ++ rest) = some (UInt8.ofNat (checkDigit ds)) := by
  have h : checkLoop (digitBytes ds ++ rest) ds.length 0 0 = _ := checkLoop_eq ds rest 0 0 rfl
  rw [hlen] at h
  rw [generateImeiCheckDigit, h, Nat.zero_add]
  rfl

/-- The check digit completes the 14 digits to a valid number if and only if it does not matter
which of them are doubled. -/
theorem checkDigit_completes_iff {ds : List (Fin 10)} (hlen : ds.length = 14) :
    LuhnValid (ds ++ [checkDigit ds]) ↔ altSum true ds % 10 = altSum false ds % 10 := by
  have hreverse : altSum true ds.reverse = altSum false ds := by
    rw [altSum_reverse, hlen]
    rfl
  have htrue := Nat.mod_lt (altSum true ds) (show 10 > 0 by decide)
  have hfalse := Nat.mod_lt (altSum false ds) (show 10 > 0 by decide)
  rw [luhnValid_concat_iff, hreverse, checkDigit]
  dsimp only
  omega

/-! ## The number -/

/-- The digits of the manufacturer and the model. -/
def tac : List (Fin 10) := [8, 6, 2, 2, 8, 9, 0, 5]

theorem hexLoop_isSome {hexbuff : Block} (n i : Nat) (num : UInt64)
    (h : i + n ≤ hexbuff.length) : ∃ num', hexLoop hexbuff n i num = some num' := by
  induction n generalizing i num with
  | zero => exact ⟨num, rfl⟩
  | succ n ih =>
    rw [hexLoop, List.getElem?_eq_getElem (by omega)]
    simp only [Option.bind_eq_bind, Option.bind_some]
    split
    · exact ⟨num, rfl⟩
    · exact ih _ _ (by omega)

/-- The number that is printed has nine digits. -/
theorem decimal_num (num : UInt64) :
    ∃ ds, decimal (num % 900000000 + 100000000).toNat = digitBytes ds ∧ ds.length = 9 := by
  have hnum : (num % 900000000 + 100000000).toNat = num.toNat % 900000000 + 100000000 := by
    rw [UInt64.toNat_add, UInt64.toNat_mod]
    have := Nat.mod_lt num.toNat (show 900000000 > 0 by decide)
    exact Nat.mod_eq_of_lt (by simp only [UInt64.reduceToNat]; omega)
  have := Nat.mod_lt num.toNat (show 900000000 > 0 by decide)
  apply decimal_eq_digitBytes <;> rw [hnum] <;> omega

/-- A long enough row of digits, cut at the fourteenth. -/
theorem exists_payload {ds : List (Fin 10)} (h : ds.length = 17) :
    ∃ payload a b c, ds = payload ++ [a, b, c] ∧ payload.length = 14 := by
  have hrest : (ds.drop 14).length = 3 := by
    rw [List.length_drop, h]
  obtain ⟨a, b, c, habc⟩ := List.length_eq_three.1 hrest
  refine ⟨ds.take 14, a, b, c, ?_, ?_⟩
  · rw [← habc, List.take_append_drop]
  · rw [List.length_take, h]
    rfl

/-- What is done with the printed digits: the sixteenth is cut off with the rest, and the check
digit takes the place of the fifteenth. -/
theorem finish_eq {payload : List (Fin 10)} (hlen : payload.length = 14) (x y : UInt8)
    (rest : List UInt8) :
    (do
      let buff ← poke (digitBytes payload ++ x :: y :: rest) 15 0
      let check ← generateImeiCheckDigit buff
      let buff ← poke buff 14 (48 + check)
      return ((1 : Int), buff)) =
      some (1, digitBytes (payload ++ [checkDigit payload]) ++ 0 :: rest) := by
  have hcut : poke (digitBytes payload ++ x :: y :: rest) 15 0 =
      some (digitBytes payload ++ x :: 0 :: rest) := by
    rw [poke, if_pos (by simp [hlen]; omega), List.set_append_right _ _ (by simp [hlen])]
    simp [hlen]
  have hcheck : poke (digitBytes payload ++ x :: 0 :: rest) 14
        (48 + UInt8.ofNat (checkDigit payload)) =
      some (digitBytes (payload ++ [checkDigit payload]) ++ 0 :: rest) := by
    rw [poke, if_pos (by simp [hlen]), List.set_append_right _ _ (by simp [hlen]),
      digitBytes_append]
    simp [hlen, digitBytes, digitByte]
  simp only [hcut, generateImeiCheckDigit_eq hlen, hcheck, Option.bind_eq_bind, Option.bind_some,
    Option.pure_def]

/-- **The number is made** of the digits of the manufacturer, six digits of the hash and the check
digit. -/
theorem luatMobileGetImei_eq (crypto : Crypto) {uuid : List UInt8} {buff : Block} {bufLen : Nat}
    (hid : uuid ≠ []) (hlen : 18 ≤ bufLen) (hbuff : bufLen ≤ buff.length) :
    ∃ payload buff', luatMobileGetImei crypto uuid buff bufLen = some (1, buff') ∧
      payload.length = 14 ∧ tac <+: payload ∧
      (cstr buff').bytes = digitBytes (payload ++ [checkDigit payload]) := by
  have hhex : 0 + 16 ≤ (crypto.tohex (crypto.md5 uuid) ++ [0]).length := by
    rw [List.length_append, crypto.length_tohex, crypto.length_md5]
    decide
  obtain ⟨num, hnum⟩ := hexLoop_isSome 16 0 0 hhex
  obtain ⟨ds, hds, hds9⟩ := decimal_num num
  have hprefix : ascii "86228905" = digitBytes tac := by decide
  have hlen17 : (tac ++ ds).length = 17 := by simp [hds9, tac]
  obtain ⟨payload, a, b, c, hall, hpayload⟩ := exists_payload hlen17
  have hprinted : snprintf buff bufLen (digitBytes (tac ++ ds)) =
      some (digitBytes payload ++ digitByte a :: digitByte b :: digitByte c :: 0 ::
        buff.drop 18) := by
    have hbytes : (digitBytes (tac ++ ds)).length = 17 := by rw [length_digitBytes, hlen17]
    rw [snprintf, if_neg (by omega), List.take_of_length_le (by omega), store_of_le,
      overwrite, List.length_append, hbytes, hall, digitBytes_append]
    · simp [digitBytes]
    · rw [List.length_append, hbytes, List.length_singleton]
      omega
  refine ⟨payload, digitBytes (payload ++ [checkDigit payload]) ++ 0 :: digitByte c :: 0 ::
    buff.drop 18, ?_, hpayload, ?_, bytes_cstr_terminated (zero_notMem_digitBytes _) _⟩
  · rw [luatMobileGetImei, if_pos (List.length_pos_iff.2 hid)]
    simp only [hnum, Option.bind_eq_bind, Option.bind_some]
    rw [hds, hprefix, ← digitBytes_append, hprinted]
    exact finish_eq hpayload _ _ _
  · -- the first fourteen of the printed digits begin as all of them do
    have hlong : tac <+: payload ++ [a, b, c] := ⟨ds, hall⟩
    exact List.prefix_of_prefix_length_le hlong (List.prefix_append _ _)
      (by rw [hpayload]; decide)

/-- **Which IMEIs are valid.**  For every device with an id, the result is a string of 15 digits,
of which the first eight are those of the manufacturer.  It passes the Luhn check if and only if
the sum of its first 14 digits is the same modulo ten whether those at the even or those at the
odd places are doubled; and so for any 14 digits and their check digit. -/
theorem imei_luhn_iff (crypto : Crypto) {uuid : List UInt8} {buff : Block} {bufLen : Nat}
    (hid : uuid ≠ []) (hlen : 18 ≤ bufLen) (hbuff : bufLen ≤ buff.length) :
    (∃ imei buff', luatMobileGetImei crypto uuid buff bufLen = some (1, buff') ∧
      (cstr buff').bytes = digitBytes imei ∧ imei.length = 15 ∧ tac <+: imei ∧
      (LuhnValid imei ↔
        altSum true (imei.take 14) % 10 = altSum false (imei.take 14) % 10)) ∧
      ∀ (ds : List (Fin 10)) (rest : List UInt8), ds.length = 14 → ∃ c : Fin 10,
        generateImeiCheckDigit (digitBytes ds ++ rest) = some (UInt8.ofNat c) ∧
        (LuhnValid (ds ++ [c]) ↔ altSum true ds % 10 = altSum false ds % 10) := by
  constructor
  · obtain ⟨payload, buff', hget, hpayload, htac, hbytes⟩ :=
      luatMobileGetImei_eq crypto hid hlen hbuff
    refine ⟨payload ++ [checkDigit payload], buff', hget, hbytes, ?_,
      htac.trans (List.prefix_append _ _), ?_⟩
    · rw [List.length_append, hpayload, List.length_singleton]
    · rw [List.take_left' hpayload]
      exact checkDigit_completes_iff hpayload
  · intro ds rest hds
    exact ⟨checkDigit ds, generateImeiCheckDigit_eq hds rest, checkDigit_completes_iff hds⟩

/-- A hash of zeros only. -/
def zeroCrypto : Crypto where
  md5 _ := List.replicate 16 0
  tohex bs := List.replicate (2 * bs.length) 48
  length_md5 _ := List.length_replicate
  length_tohex _ := List.length_replicate

theorem imei_luhn_iff_zeros :
    ∃ imei buff', luatMobileGetImei zeroCrypto [1] (List.replicate 18 0) 18 = some (1, buff') ∧
      (cstr buff').bytes = digitBytes imei ∧ imei.length = 15 ∧ tac <+: imei ∧
      (LuhnValid imei ↔
        altSum true (imei.take 14) % 10 = altSum false (imei.take 14) % 10) :=
  (imei_luhn_iff zeroCrypto (List.cons_ne_nil 1 []) (le_refl 18) (by decide)).1

/-- The number 862289051000008, where the check digit would be 4; and the check digit of
49015420323751, which is 8. -/
theorem imei_fails_luhn :
    (luatMobileGetImei zeroCrypto [1] (List.replicate 18 0) 18).map
        (fun r => (cstr r.2).bytes) = some (ascii "862289051000008") ∧
      ¬ LuhnValid [8, 6, 2, 2, 8, 9, 0, 5, 1, 0, 0, 0, 0, 0, 8] ∧
      generateImeiCheckDigit (ascii "49015420323751") = some 0 ∧
      LuhnValid [4, 9, 0, 1, 5, 4, 2, 0, 3, 2, 3, 7, 5, 1, 8] := by
  decide +kernel

end LuatosPc.Mobile
