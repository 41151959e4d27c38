import Mathlib

/-!
# Blocks of memory, stores and little-endian numbers

What a C program that builds or reads a byte image by hand rests on: a block of
allocated memory, stores that must stay inside it, `realloc`, and numbers laid
out least significant byte first.

* `Block` — the bytes of one allocation; `alloc` and `realloc` leave the bytes
  they add undetermined, so they are given as a function of the index.
* `poke`, `store` — one byte, several bytes in a row; `fetch` — the same for reading.
  A store outside the block is undefined behaviour and has no result.
* `overwrite` — what a store does when it stays inside (`store_of_le`); outside
  there is no result (`store_of_lt`), and stores in a row are one store
  (`store_bind_store`).
* `leBytes`, `leValue` — numbers as bytes and back (`leValue_leBytes`).
* `expect`, `takeBytes` — reading from the front of a stream.
* `CString` — a string without a zero byte in it; `cstr` — the one in a buffer.
-/

namespace LuatosPc.Bytes

/-- The bytes of one allocation. -/
abbrev Block := List UInt8

/-- `malloc(n)`: the bytes are whatever was there. -/
def alloc (n : Nat) (junk : Nat → UInt8) : Block :=
  (List.range n).map junk

/-- `realloc(b, n)`: the bytes of the old block as far as they fit, then whatever
was there. -/
def realloc (b : Block) (n : Nat) (junk : Nat → UInt8) : Block :=
  b.take n ++ (List.range (n - b.length)).map junk

/-- `b[i] = v`. -/
def poke (b : Block) (i : Nat) (v : UInt8) : Option Block :=
  if i < b.length then some (b.set i v) else none

/-- `b[i] = v₀; b[i + 1] = v₁; …`: assignments in a row, or a `memcpy`. -/
def store (b : Block) (i : Nat) : List UInt8 → Option Block
  | [] => some b
  | v :: vs => (poke b i v).bind fun b' => store b' (i + 1) vs

/-- The `n` bytes from index `i` on, if they are bytes of the block. -/
def fetch (b : Block) (i n : Nat) : Option (List UInt8) :=
  if i + n ≤ b.length then some ((b.drop i).take n) else none

/-- The block with the bytes `vs` in place of those from index `i` on. -/
def overwrite (b : Block) (i : Nat) (vs : List UInt8) : Block :=
  b.take i ++ vs ++ b.drop (i + vs.length)

/-! ## Allocation -/

section

variable (b : Block) (n : Nat) (junk : Nat → UInt8)

@[simp] theorem length_alloc : (alloc n junk).length = n := by
  simp [alloc]

@[simp] theorem length_realloc : (realloc b n junk).length = n := by
  simp only [realloc, List.length_append, List.length_take, List.length_map, List.length_range]
  omega

variable {b n}

theorem take_realloc {k : Nat} (hk : k ≤ n) (hb : k ≤ b.length) :
    (realloc b n junk).take k = b.take k := by
  have hlen : k ≤ (b.take n).length := by
    rw [List.length_take]
    omega
  rw [realloc, List.take_append_of_le_length hlen, List.take_take, Nat.min_eq_left hk]

end

/-! ## Stores -/

section

variable {b : Block} {i : Nat} {vs ws : List UInt8}

theorem length_overwrite (h : i + vs.length ≤ b.length) :
    (overwrite b i vs).length = b.length := by
  simp only [overwrite, List.length_append, List.length_take, List.length_drop]
  omega

theorem take_overwrite (h : i ≤ b.length) : (overwrite b i vs).take i = b.take i := by
  have hlen : (b.take i).length = i := by
    rw [List.length_take]
    omega
  rw [overwrite, List.append_assoc, List.take_left' hlen]

/-- What was written stands behind what was there. -/
theorem take_overwrite_add (h : i ≤ b.length) :
    (overwrite b i vs).take (i + vs.length) = b.take i ++ vs := by
  have hlen : (b.take i ++ vs).length = i + vs.length := by
    rw [List.length_append, List.length_take]
    omega
  rw [overwrite, List.take_left' hlen]

@[simp] theorem overwrite_nil : overwrite b i [] = b := by
  simp [overwrite]

/-- Two stores, the second where the first ends, are one. -/
theorem overwrite_overwrite (h : i + vs.length ≤ b.length) :
    overwrite (overwrite b i vs) (i + vs.length) ws = overwrite b i (vs ++ ws) := by
  have hlen : (b.take i ++ vs).length = i + vs.length := by
    rw [List.length_append, List.length_take]
    omega
  have hdrop : (overwrite b i vs).drop (i + vs.length + ws.length) =
      b.drop (i + (vs ++ ws).length) := by
    rw [overwrite, ← List.drop_drop, List.drop_left' hlen, List.drop_drop, List.length_append]
    congr 1
    omega
  rw [overwrite, take_overwrite_add (by omega), hdrop, overwrite, List.append_assoc (b.take i)]

/-- A store right behind the bytes at the front. -/
theorem overwrite_append (front rest : List UInt8) :
    overwrite (front ++ rest) front.length vs = front ++ vs ++ rest.drop vs.length := by
  rw [overwrite, List.take_left' rfl, List.drop_length_add_append]

theorem set_eq_overwrite (v : UInt8) (h : i < b.length) : b.set i v = overwrite b i [v] := by
  rw [List.set_eq_take_append_cons_drop, if_pos h, overwrite]
  simp

theorem store_of_le (h : i + vs.length ≤ b.length) : store b i vs = some (overwrite b i vs) := by
  induction vs generalizing b i with
  | nil => simp [store]
  | cons v vs ih =>
    rw [List.length_cons] at h
    have hi : i < b.length := by omega
    have hone : i + [v].length ≤ b.length := by simpa using hi
    rw [store, poke, if_pos hi, Option.bind_some, set_eq_overwrite v hi,
      ih (by rw [length_overwrite hone]; omega)]
    exact congrArg some (overwrite_overwrite hone)

theorem store_of_lt (hvs : vs ≠ []) (h : b.length < i + vs.length) : store b i vs = none := by
  induction vs generalizing b i with
  | nil => exact absurd rfl hvs
  | cons v vs ih =>
    rw [List.length_cons] at h
    rw [store, poke]
    by_cases hi : i < b.length
    · rw [if_pos hi, Option.bind_some]
      refine ih ?_ (by rw [List.length_set]; omega)
      rintro rfl
      rw [List.length_nil] at h
      omega
    · rw [if_neg hi, Option.bind_none]

/-- Stores in a row are one store of all the bytes. -/
theorem store_append (vs ws : List UInt8) :
    store b i (vs ++ ws) = (store b i vs).bind fun b' => store b' (i + vs.length) ws := by
  induction vs generalizing b i with
  | nil => simp [store]
  | cons v vs ih =>
    rw [List.cons_append, store, store, Option.bind_assoc, List.length_cons]
    congr 1
    funext c
    rw [ih, Nat.add_assoc, Nat.add_comm 1]

theorem fetch_of_le {n : Nat} (h : i + n ≤ b.length) : fetch b i n = some ((b.drop i).take n) :=
  if_pos h

theorem length_of_fetch {n : Nat} (h : fetch b i n = some vs) : vs.length = n := by
  unfold fetch at h
  split at h
  · obtain rfl := Option.some.inj h
    rw [List.length_take, List.length_drop]
    omega
  · cases h

theorem store_isSome_iff (hvs : vs ≠ []) :
    (store b i vs).isSome = true ↔ i + vs.length ≤ b.length := by
  by_cases h : i + vs.length ≤ b.length
  · simp [store_of_le h, h]
  · simp [store_of_lt hvs (Nat.lt_of_not_le h), h]

/-- One byte is several bytes in a row. -/
theorem store_singleton (v : UInt8) : store b i [v] = poke b i v := by
  cases h : poke b i v <;> simp [store, h]

/-- A store at the front of a block of zeros leaves zeros behind what it wrote. -/
theorem store_zeros {n : Nat} (h : vs.length ≤ n) :
    store (List.replicate n 0) 0 vs = some (vs ++ List.replicate (n - vs.length) 0) := by
  have hfits : 0 + vs.length ≤ (List.replicate n (0 : UInt8)).length := by
    rw [List.length_replicate, Nat.zero_add]
    exact h
  rw [store_of_le hfits, overwrite, List.take_zero, List.nil_append, List.drop_replicate,
    Nat.zero_add]

/-- A program that stores twice, the second time where the first store ends,
stores once. -/
theorem store_bind_store {α : Type*} {j : Nat} (hj : j = i + vs.length) (k : Block → Option α) :
    ((store b i vs).bind fun b' => (store b' j ws).bind k) = (store b i (vs ++ ws)).bind k := by
  rw [hj, store_append, Option.bind_assoc]

end

/-! ## Little-endian numbers -/

/-- The `k` low bytes of `x`, the least significant first. -/
def leBytes : Nat → Nat → List UInt8
  | 0, _ => []
  | k + 1, x => UInt8.ofNat x :: leBytes k (x >>> 8)

/-- The number a list of bytes stands for, the least significant byte first. -/
def leValue : List UInt8 → Nat
  | [] => 0
  | v :: vs => v.toNat + 256 * leValue vs

@[simp] theorem length_leBytes (k x : Nat) : (leBytes k x).length = k := by
  induction k generalizing x with
  | zero => rfl
  | succ k ih => rw [leBytes, List.length_cons, ih]

theorem leValue_leBytes {k x : Nat} (h : x < 256 ^ k) : leValue (leBytes k x) = x := by
  induction k generalizing x with
  | zero =>
    rw [Nat.pow_zero] at h
    show 0 = x
    omega
  | succ k ih =>
    have hhigh : x >>> 8 < 256 ^ k := by
      rw [Nat.shiftRight_eq_div_pow, Nat.div_lt_iff_lt_mul (by decide)]
      rw [Nat.pow_succ] at h
      omega
    have hlow : (UInt8.ofNat x).toNat = x % 256 := by simp
    rw [leBytes, leValue, ih hhigh, hlow, Nat.shiftRight_eq_div_pow]
    omega

/-! ## Reading a stream -/

/-- The stream behind the bytes `tag`, if it begins with them. -/
def expect (tag bs : List UInt8) : Option (List UInt8) :=
  if bs.take tag.length = tag then some (bs.drop tag.length) else none

/-- The first `n` bytes of a stream and what follows them. -/
def takeBytes (n : Nat) (bs : List UInt8) : Option (List UInt8 × List UInt8) :=
  if n ≤ bs.length then some (bs.take n, bs.drop n) else none

@[simp] theorem expect_append (tag rest : List UInt8) : expect tag (tag ++ rest) = some rest := by
  rw [expect, if_pos (List.take_left' rfl), List.drop_left' rfl]

theorem takeBytes_append {n : Nat} {vs : List UInt8} (h : vs.length = n) (rest : List UInt8) :
    takeBytes n (vs ++ rest) = some (vs, rest) := by
  rw [takeBytes, if_pos (by rw [List.length_append]; omega), List.take_left' h, List.drop_left' h]

/-! ## Strings -/

/-- A C string: bytes without a zero among them. -/
structure CString where
  /-- The bytes before the terminating zero. -/
  bytes : List UInt8
  /-- The terminator is the first zero. -/
  nulFree : 0 ∉ bytes

/-- `strlen`. -/
def strlen (s : CString) : Nat := s.bytes.length

/-- The string that a buffer holds: the bytes before the first zero. -/
def cstr (buf : List UInt8) : CString :=
  ⟨buf.takeWhile (· ≠ 0), fun h => by simpa using List.mem_takeWhile_imp h⟩

/-- The zero-free bytes at the front of a buffer belong to its string. -/
theorem bytes_cstr_append {v : List UInt8} (hv : 0 ∉ v) (rest : List UInt8) :
    (cstr (v ++ rest)).bytes = v ++ (cstr rest).bytes := by
  refine List.takeWhile_append_of_pos ?_
  intro c hc
  simpa using fun h0 : c = 0 => hv (h0 ▸ hc)

/-- **A terminated string** is the string of its buffer, whatever follows. -/
theorem bytes_cstr_terminated {v : List UInt8} (hv : 0 ∉ v) (rest : List UInt8) :
    (cstr (v ++ 0 :: rest)).bytes = v := by
  rw [bytes_cstr_append hv, List.append_right_eq_self]
  simp [cstr]

theorem cstr_terminated {v : List UInt8} (hv : 0 ∉ v) (rest : List UInt8) :
    cstr (v ++ 0 :: rest) = ⟨v, hv⟩ :=
  (CString.mk.injEq ..).mpr (bytes_cstr_terminated hv rest)

theorem cstr_of_nulFree {v : List UInt8} (hv : 0 ∉ v) : cstr v = ⟨v, hv⟩ := by
  have h := bytes_cstr_append hv []
  rw [List.append_nil] at h
  exact (CString.mk.injEq ..).mpr (h.trans (List.append_nil v))

/-- A string with zeros behind it, if there are any. -/
theorem bytes_cstr_zeros {v : List UInt8} (hv : 0 ∉ v) (n : Nat) :
    (cstr (v ++ List.replicate n 0)).bytes = v := by
  rw [bytes_cstr_append hv, List.append_right_eq_self]
  cases n <;> simp [cstr, List.replicate_succ]

/-- The bytes of a text without special characters. -/
def ascii (s : String) : List UInt8 := s.toList.map fun c => UInt8.ofNat c.toNat

end LuatosPc.Bytes
