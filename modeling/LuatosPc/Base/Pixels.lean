import Mathlib.Data.BitVec
import Mathlib.Data.List.Basic
import Mathlib.Tactic.Linarith

/-!
# Packed pixels

Pixels of a few bits each, packed into bytes from the most significant bit on.

* `Layout` — how many bits a pixel has, how many pixels a byte, and how many bytes a row.
* `pixel`, `setPixel` — one pixel is read, and written; a pixel outside of the memory cannot be
  written.
* `setPixel_spec` — writing one changes that one only.
* `Painted` — a set of pixels has got a value, and nothing else has changed; it is kept by
  writing (`Painted.set`), and by loops (`forRange_invariant`).
-/

namespace LuatosPc.Pixels

/-- Memory. -/
abbrev Bits := List (BitVec 8)

/-- `buf[i] = f(buf[i])`. -/
def updateAt (buf : Bits) (i : Nat) (f : BitVec 8 → BitVec 8) : Option Bits :=
  if i < buf.length then some (buf.modify i f) else none

/-- `memset(buf, 0, n)`. -/
def clear (buf : Bits) (n : Nat) : Option Bits :=
  if n ≤ buf.length then some (List.replicate n 0 ++ buf.drop n) else none

/-- How pixels lie in memory. -/
structure Layout where
  bits : Nat
  perByte : Nat
  stride : Nat
  size : perByte * bits = 8

namespace Layout

variable (L : Layout)

/-- How far the bits of a pixel are from the end of its byte. -/
def shift (x : Nat) : Nat := (L.perByte - 1 - x % L.perByte) * L.bits

/-- The byte of a pixel. -/
def index (x y : Nat) : Nat := y * L.stride + x / L.perByte

/-- The bits of a pixel in its byte. -/
def get (b : BitVec 8) (x : Nat) : BitVec L.bits := b.extractLsb' (L.shift x) L.bits

/-- The byte with other bits for a pixel. -/
def put (b : BitVec 8) (x : Nat) (v : BitVec L.bits) : BitVec 8 :=
  b &&& ~~~((BitVec.allOnes L.bits).setWidth 8 <<< L.shift x) ||| v.setWidth 8 <<< L.shift x

theorem perByte_pos : 0 < L.perByte := by
  have := L.size
  by_contra h
  rw [Nat.eq_zero_of_not_pos h] at this
  omega

theorem shift_add_bits_le (x : Nat) : L.shift x + L.bits ≤ 8 := by
  have hlt := Nat.mod_lt x L.perByte_pos
  have hle : (L.perByte - 1 - x % L.perByte + 1) * L.bits ≤ L.perByte * L.bits :=
    Nat.mul_le_mul_right _ (by omega)
  rw [Nat.add_mul, Nat.one_mul, L.size] at hle
  exact hle

/-- The bits of different pixels are apart. -/
theorem shift_disjoint {x x' : Nat} (h : x % L.perByte ≠ x' % L.perByte) :
    L.shift x + L.bits ≤ L.shift x' ∨ L.shift x' + L.bits ≤ L.shift x := by
  have hx := Nat.mod_lt x L.perByte_pos
  have hx' := Nat.mod_lt x' L.perByte_pos
  have hmul : ∀ a a' : Nat, a < a' → a * L.bits + L.bits ≤ a' * L.bits := by
    intro a a' hlt
    calc a * L.bits + L.bits = (a + 1) * L.bits := by rw [Nat.add_mul, Nat.one_mul]
      _ ≤ a' * L.bits := Nat.mul_le_mul_right _ hlt
  obtain hlt | hlt := Nat.lt_or_gt_of_ne h
  · exact .inr (hmul _ _ (by omega))
  · exact .inl (hmul _ _ (by omega))

theorem get_put_self (b : BitVec 8) (x : Nat) (v : BitVec L.bits) : L.get (L.put b x v) x = v := by
  have hbits := L.shift_add_bits_le x
  apply BitVec.eq_of_getLsbD_eq
  intro i hi
  have h8 : L.shift x + i < 8 := by omega
  simp [get, put, hi, h8]

theorem get_put_of_ne (b : BitVec 8) {x x' : Nat} (h : x % L.perByte ≠ x' % L.perByte)
    (v : BitVec L.bits) : L.get (L.put b x v) x' = L.get b x' := by
  have hbits := L.shift_add_bits_le x'
  apply BitVec.eq_of_getLsbD_eq
  intro i hi
  have h8 : L.shift x' + i < 8 := by omega
  obtain hbelow | habove := L.shift_disjoint h
  · have hnot : ¬ L.shift x' + i < L.shift x := by omega
    have hbeyond : ¬ L.shift x' + i - L.shift x < L.bits := by omega
    have hv : v.getLsbD (L.shift x' + i - L.shift x) = false :=
      BitVec.getLsbD_of_ge _ _ (by omega)
    simp [get, put, hi, h8, hnot, hbeyond, hv]
  · have hlt : L.shift x' + i < L.shift x := by omega
    simp [get, put, hi, h8, hlt]

/-! ## One pixel -/

/-- The value of a pixel. -/
def pixel (buf : Bits) (x y : Nat) : BitVec L.bits := L.get (buf.getD (L.index x y) 0) x

/-- A pixel gets a value. -/
def setPixel (v : BitVec L.bits) (buf : Bits) (x y : Nat) : Option Bits :=
  updateAt buf (L.index x y) (L.put · x v)

/-- The pixel is in its row, and in one of the first `h` of them. -/
def Inside (h x y : Nat) : Prop := x < L.perByte * L.stride ∧ y < h

variable {L}

/-- The byte is inside of the memory of `h` rows. -/
theorem Inside.index_lt {h x y : Nat} (hin : L.Inside h x y) : L.index x y < L.stride * h := by
  have hx : x / L.perByte < L.stride := Nat.div_lt_of_lt_mul hin.1
  calc L.index x y < y * L.stride + L.stride := Nat.add_lt_add_left hx _
    _ = L.stride * (y + 1) := by rw [Nat.mul_add, Nat.mul_one, Nat.mul_comm]
    _ ≤ L.stride * h := Nat.mul_le_mul_left _ hin.2

/-- **No two pixels share bits.** -/
theorem Inside.eq_of_index {h x y x' y' : Nat} (hin : L.Inside h x y) (hin' : L.Inside h x' y')
    (hindex : L.index x y = L.index x' y') (hmod : x % L.perByte = x' % L.perByte) :
    x = x' ∧ y = y' := by
  have hx : x / L.perByte < L.stride := Nat.div_lt_of_lt_mul hin.1
  have hx' : x' / L.perByte < L.stride := Nat.div_lt_of_lt_mul hin'.1
  have hpos : 0 < L.stride := Nat.zero_lt_of_lt hx
  have hrow : ∀ u v : Nat, u / L.perByte < L.stride → L.index u v / L.stride = v := by
    intro u v hu
    rw [index, Nat.mul_comm, Nat.mul_add_div hpos, Nat.div_eq_of_lt hu, Nat.add_zero]
  have hy : y = y' := by rw [← hrow x y hx, hindex, hrow x' y' hx']
  subst hy
  have hdiv : x / L.perByte = x' / L.perByte := Nat.add_left_cancel hindex
  refine ⟨?_, rfl⟩
  rw [← Nat.div_add_mod x L.perByte, ← Nat.div_add_mod x' L.perByte, hdiv, hmod]

/-- **Writing a pixel** changes that one, and no other. -/
theorem setPixel_spec {h x y : Nat} (v : BitVec L.bits) {buf : Bits} (hin : L.Inside h x y)
    (hroom : L.stride * h ≤ buf.length) :
    ∃ buf', L.setPixel v buf x y = some buf' ∧ buf'.length = buf.length ∧
      buf'.drop (L.stride * h) = buf.drop (L.stride * h) ∧
      ∀ x' y', L.Inside h x' y' →
        L.pixel buf' x' y' = if x' = x ∧ y' = y then v else L.pixel buf x' y' := by
  have hlt := hin.index_lt
  refine ⟨buf.modify (L.index x y) (L.put · x v), if_pos (by omega), List.length_modify ..,
    List.drop_modify_of_lt _ _ _ _ hlt, ?_⟩
  intro x' y' hin'
  have hbyte : (buf.modify (L.index x y) (L.put · x v)).getD (L.index x' y') 0 =
      if L.index x y = L.index x' y' then L.put (buf.getD (L.index x' y') 0) x v
      else buf.getD (L.index x' y') 0 := by
    have hlt' := hin'.index_lt
    rw [List.getD_eq_getElem?_getD, List.getD_eq_getElem?_getD, List.getElem?_modify,
      List.getElem?_eq_getElem (by omega)]
    rfl
  rw [pixel, hbyte]
  split
  · rename_i hindex
    by_cases hmod : x % L.perByte = x' % L.perByte
    · obtain ⟨rfl, rfl⟩ := hin.eq_of_index hin' hindex hmod
      rw [get_put_self, if_pos ⟨rfl, rfl⟩]
    · have hne : ¬ (x' = x ∧ y' = y) := fun h => hmod (by rw [h.1])
      rw [get_put_of_ne _ _ hmod, if_neg hne, pixel]
  · rename_i hindex
    have hne : ¬ (x' = x ∧ y' = y) := fun h => hindex (by rw [h.1, h.2])
    rw [if_neg hne, pixel]

/-! ## Several pixels -/

/-- From `buf` to `buf'`, the pixels of `S` got a value; the other ones of the first `h` rows have
become zero, and the memory behind those has not changed. -/
structure Painted (L : Layout) (v : BitVec L.bits) (h : Nat) (buf : Bits) (S : Nat → Nat → Prop)
    (buf' : Bits) : Prop where
  length : buf'.length = buf.length
  rest : buf'.drop (L.stride * h) = buf.drop (L.stride * h)
  on : ∀ x y, L.Inside h x y → S x y → L.pixel buf' x y = v
  off : ∀ x y, L.Inside h x y → ¬ S x y → L.pixel buf' x y = 0

variable {v : BitVec L.bits} {h : Nat} {buf buf' : Bits} {S S' : Nat → Nat → Prop}

/-- At first there are no pixels. -/
theorem painted_clear (hroom : L.stride * h ≤ buf.length) :
    ∃ buf', clear buf (L.stride * h) = some buf' ∧
      L.Painted v h buf (fun _ _ => False) buf' := by
  refine ⟨_, if_pos hroom, ⟨?_, ?_, fun _ _ _ => False.elim, ?_⟩⟩
  · rw [List.length_append, List.length_replicate, List.length_drop]
    omega
  · exact List.drop_left' List.length_replicate
  · intro x y hin _
    have hbyte : (List.replicate (L.stride * h) (0 : BitVec 8) ++
        buf.drop (L.stride * h)).getD (L.index x y) 0 = 0 := by
      have hlt : L.index x y < (List.replicate (L.stride * h) (0 : BitVec 8)).length := by
        rw [List.length_replicate]
        exact hin.index_lt
      rw [List.getD_eq_getElem?_getD, List.getElem?_append_left hlt, List.getElem?_replicate]
      split <;> rfl
    rw [pixel, hbyte, get]
    simp

theorem Painted.congr (hp : L.Painted v h buf S buf')
    (hS : ∀ x y, L.Inside h x y → (S x y ↔ S' x y)) : L.Painted v h buf S' buf' :=
  ⟨hp.length, hp.rest, fun x y hin hs => hp.on x y hin ((hS x y hin).2 hs),
    fun x y hin hs => hp.off x y hin (mt (hS x y hin).1 hs)⟩

/-- **One more pixel.** -/
theorem Painted.set (hp : L.Painted v h buf S buf') (hroom : L.stride * h ≤ buf.length)
    {x y : Nat} (hin : L.Inside h x y) :
    ∃ buf'', L.setPixel v buf' x y = some buf'' ∧
      L.Painted v h buf (fun x' y' => S x' y' ∨ x' = x ∧ y' = y) buf'' := by
  obtain ⟨buf'', hset, hlen, hrest, hpixel⟩ :=
    setPixel_spec v hin (hp.length.symm ▸ hroom)
  refine ⟨buf'', hset, ⟨hlen.trans hp.length, hrest.trans hp.rest, ?_, ?_⟩⟩
  · intro x' y' hin' hs
    rw [hpixel x' y' hin']
    by_cases hxy : x' = x ∧ y' = y
    · rw [if_pos hxy]
    · rw [if_neg hxy]
      exact hp.on x' y' hin' (hs.resolve_right hxy)
  · intro x' y' hin' hs
    obtain ⟨hS, hxy⟩ := not_or.1 hs
    rw [hpixel x' y' hin', if_neg hxy]
    exact hp.off x' y' hin' hS

end Layout

/-- **The rule for a loop** `for (i = 0; i < n; i++)`: what each round restores holds at the
end. -/
theorem forRange_invariant {β : Type} {f : β → Nat → Option β} (P : Nat → β → Prop) {n : Nat}
    {b : β} (hstart : P 0 b) (hround : ∀ i < n, ∀ b, P i b → ∃ b', f b i = some b' ∧ P (i + 1) b') :
    ∃ b', (List.range n).foldlM f b = some b' ∧ P n b' := by
  induction n with
  | zero => exact ⟨b, rfl, hstart⟩
  | succ n ih =>
    obtain ⟨b₁, hloop, h₁⟩ := ih fun i hi => hround i (by omega)
    obtain ⟨b₂, hlast, h₂⟩ := hround n (by omega) b₁ h₁
    refine ⟨b₂, ?_, h₂⟩
    rw [List.range_succ, List.foldlM_append, hloop]
    simp [hlast]

/-- Loops whose rounds do the same do the same. -/
theorem forRange_congr {β : Type} {f g : β → Nat → Option β} {n : Nat}
    (h : ∀ i < n, ∀ b, f b i = g b i) (b : β) :
    (List.range n).foldlM f b = (List.range n).foldlM g b := by
  induction n with
  | zero => rfl
  | succ n ih =>
    rw [List.range_succ, List.foldlM_append, List.foldlM_append, ih fun i hi => h i (by omega)]
    refine Option.bind_congr fun b' _ => ?_
    rw [List.foldlM_cons, List.foldlM_cons, h n (by omega)]
    rfl

end LuatosPc.Pixels
