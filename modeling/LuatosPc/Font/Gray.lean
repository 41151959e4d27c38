import LuatosPc.Font

/-!
# Gray glyphs

`get_Font_Gray` packs the same pixels as `get_font`, with two or four bits for each of them.

* `grayAt` — the value of a pixel.
* `getFontGray_spec` — the memory after `get_Font_Gray`.
* `gray_agrees` — the pictures of both functions are the same.
-/

namespace LuatosPc.Font

open LuatosPc.Pixels

/-- The value of a pixel of `bpp` bits. -/
def grayAt (w bpp : Nat) (pBits : Bits) (x y : Nat) : Nat :=
  ((pBits.getD (y * ((w + 7) / 8 * bpp) + x / (8 / bpp)) 0).toNat >>>
    ((8 / bpp - 1 - x % (8 / bpp)) * bpp)) % 2 ^ bpp

section

variable {w bpp h : Nat} {pBits pBits' : Bits} {S : Nat → Nat → Prop}

theorem grayAt_eq (size : 8 / bpp * bpp = 8) (x y : Nat) :
    grayAt w bpp pBits x y = ((gray w bpp size).pixel pBits x y).toNat :=
  (BitVec.extractLsb'_toNat ..).symm

/-- A row has room for the pixels of the cell, and some more. -/
theorem gray_inside (size : 8 / bpp * bpp = 8) {x y : Nat} (hx : x < 8 * ((w + 7) / 8))
    (hy : y < h) : (gray w bpp size).Inside h x y := by
  have hrow : 8 / bpp * ((w + 7) / 8 * bpp) = 8 * ((w + 7) / 8) := by
    rw [Nat.mul_left_comm, size, Nat.mul_comm]
  refine ⟨?_, hy⟩
  show x < 8 / bpp * ((w + 7) / 8 * bpp)
  omega

/-- What the memory is after the pixels of `S` have been drawn. -/
structure GrayPainted (w bpp h : Nat) (pBits : Bits) (S : Nat → Nat → Prop) (pBits' : Bits) :
    Prop where
  length : pBits'.length = pBits.length
  rest : pBits'.drop ((w + 7) / 8 * bpp * h) = pBits.drop ((w + 7) / 8 * bpp * h)
  on : ∀ x y, x < 8 * ((w + 7) / 8) → y < h → S x y → grayAt w bpp pBits' x y = 2 ^ bpp - 1
  off : ∀ x y, x < 8 * ((w + 7) / 8) → y < h → ¬ S x y → grayAt w bpp pBits' x y = 0

theorem grayPainted_of_painted (size : 8 / bpp * bpp = 8)
    (hp : (gray w bpp size).Painted (BitVec.allOnes bpp) h pBits S pBits') :
    GrayPainted w bpp h pBits S pBits' := by
  refine ⟨hp.length, hp.rest, ?_, ?_⟩
  · intro x y hx hy hS
    rw [grayAt_eq size, hp.on x y (gray_inside size hx hy) hS]
    exact BitVec.toNat_allOnes
  · intro x y hx hy hS
    rw [grayAt_eq size, hp.off x y (gray_inside size hx hy) hS]
    exact BitVec.toNat_zero

end

theorem grayBpp_cases (fontSize : UInt8) : grayBpp fontSize = 4 ∨ grayBpp fontSize = 2 := by
  unfold grayBpp
  split
  · exact .inl rfl
  · exact .inr rfl

section

variable {ft : FreeType} (hok : ft.ok = true) {fontSize : UInt8} (hsize : fontSize ≠ 0)
  {pBits : Bits}

include hok hsize

/-- `get_Font_Gray` with its bits for a pixel. -/
theorem getFontGray_eq (int : Int → Int) (pBits : Bits) (fontCode : Nat) :
    getFontGray int ft pBits fontCode fontSize =
      ((clear pBits ((fontSize.toNat + 7) / 8 * grayBpp fontSize * fontSize.toNat)).bind
        (render int ft
          (if grayBpp fontSize = 4 then setPixGray fontSize.toNat 4 0x0F#8
            else setPixGray fontSize.toNat 2 0x03#8)
          fontSize.toNat fontSize.toNat fontCode)).map fun r => (r.1, grayBpp fontSize, r.2) := by
  have hgo : ¬ (fontSize = 0 ∨ ft.ok = false) := by simp [hsize, hok]
  rw [getFontGray, if_neg hgo, Option.map_bind]
  refine Option.bind_congr fun cleared _ => ?_
  dsimp only [Function.comp_apply]
  generalize render int ft _ fontSize.toNat fontSize.toNat fontCode cleared = drawn
  cases drawn <;> rfl

omit hok hsize in
/-- What is drawn with either number of bits. -/
theorem render_gray {bpp : Nat} (size : 8 / bpp * bpp = 8) (w h fontCode : Nat)
    (hroom : (w + 7) / 8 * bpp * h ≤ pBits.length) :
    ∃ pBits', (clear pBits ((w + 7) / 8 * bpp * h)).bind
        (render id ft ((gray w bpp size).setPixel (BitVec.allOnes bpp)) w h fontCode) =
        some (ft.advance w h fontCode, pBits') ∧
      GrayPainted w bpp h pBits (ft.Shows w h fontCode) pBits' := by
  have hwide : w ≤ (gray w bpp size).perByte * (gray w bpp size).stride := by
    show w ≤ 8 / bpp * ((w + 7) / 8 * bpp)
    rw [Nat.mul_left_comm, size]
    omega
  obtain ⟨pBits', hrender, hp⟩ := render_spec (v := BitVec.allOnes bpp) hwide hroom ft fontCode
  exact ⟨pBits', hrender, grayPainted_of_painted size hp⟩

/-- **The memory after `get_Font_Gray`**, with exact arithmetic. -/
theorem getFontGray_spec (fontCode : Nat)
    (hroom : (fontSize.toNat + 7) / 8 * grayBpp fontSize * fontSize.toNat ≤ pBits.length) :
    ∃ pBits', getFontGray id ft pBits fontCode fontSize =
        some (ft.advance fontSize.toNat fontSize.toNat fontCode, grayBpp fontSize, pBits') ∧
      GrayPainted fontSize.toNat (grayBpp fontSize) fontSize.toNat pBits
        (ft.Shows fontSize.toNat fontSize.toNat fontCode) pBits' := by
  rw [getFontGray_eq hok hsize]
  obtain hbpp | hbpp := grayBpp_cases fontSize
  · rw [hbpp] at hroom ⊢
    obtain ⟨pBits', hrender, hp⟩ := render_gray rfl fontSize.toNat fontSize.toNat fontCode hroom
    refine ⟨pBits', ?_, hp⟩
    rw [if_pos rfl, setPixGray4_eq, hrender]
    rfl
  · rw [hbpp] at hroom ⊢
    obtain ⟨pBits', hrender, hp⟩ := render_gray rfl fontSize.toNat fontSize.toNat fontCode hroom
    refine ⟨pBits', ?_, hp⟩
    rw [if_neg (by decide), setPixGray2_eq, hrender]
    rfl

/-- **Gray and monochrome glyphs agree.**  For every size and every glyph, both functions return
the same width.  `get_Font_Gray` writes the bytes of the cell only, and a pixel has the largest
value if `get_font` sets its bit, and is 0 otherwise.  With 32 bits both do the same, as long as
the numbers of the glyph fit. -/
theorem gray_agrees (fontCode : Nat) {mBits : Bits}
    (hmono : (fontSize.toNat + 7) / 8 * fontSize.toNat ≤ mBits.length)
    (hgray : (fontSize.toNat + 7) / 8 * grayBpp fontSize * fontSize.toNat ≤ pBits.length) :
    (∃ adv bpp mBits' pBits',
      getFont id ft mBits fontCode fontSize fontSize = some (adv, mBits') ∧
      getFontGray id ft pBits fontCode fontSize = some (adv, bpp, pBits') ∧
      (bpp = 4 ∨ bpp = 2) ∧ pBits'.length = pBits.length ∧
      pBits'.drop ((fontSize.toNat + 7) / 8 * bpp * fontSize.toNat) =
        pBits.drop ((fontSize.toNat + 7) / 8 * bpp * fontSize.toNat) ∧
      ∀ x y, x < 8 * ((fontSize.toNat + 7) / 8) → y < fontSize.toNat →
        grayAt fontSize.toNat bpp pBits' x y =
          if bitAt fontSize.toNat mBits' x y then 2 ^ bpp - 1 else 0) ∧
      ((∀ ascender slot, ft.glyph fontSize.toNat fontCode = some (ascender, slot) →
          slot.Fits ascender) →
        getFont int32 ft mBits fontCode fontSize fontSize =
            getFont id ft mBits fontCode fontSize fontSize ∧
          getFontGray int32 ft pBits fontCode fontSize =
            getFontGray id ft pBits fontCode fontSize) := by
  constructor
  · obtain ⟨mBits', hm, -, -, hbits⟩ := getFont_spec hok fontCode hsize hsize hmono
    obtain ⟨pBits', hg, hp⟩ := getFontGray_spec hok hsize fontCode hgray
    refine ⟨_, _, mBits', pBits', hm, hg, grayBpp_cases fontSize, hp.length, hp.rest, ?_⟩
    intro x y hx hy
    have hbit := hbits x y hx hy
    by_cases hshows : ft.Shows fontSize.toNat fontSize.toNat fontCode x y
    · rw [if_pos (hbit.2 hshows)]
      exact hp.on x y hx hy hshows
    · rw [if_neg (mt hbit.1 hshows)]
      exact hp.off x y hx hy hshows
  · intro hfits
    have h255 : fontSize.toNat ≤ 255 := by
      have := fontSize.toNat_lt
      omega
    constructor
    · simp only [getFont, render_int32 h255 hfits]
    · simp only [getFontGray, render_int32 h255 hfits]

end

/-- A glyph that is cut off above and on the right. -/
theorem gray_agrees_wide :
    ∃ adv bpp mBits' pBits', getFont id wideFont (List.replicate 8 0) 65 8 8 = some (adv, mBits') ∧
      getFontGray id wideFont (List.replicate 16 0) 65 8 = some (adv, bpp, pBits') ∧
      ∀ x < 8, ∀ y < 8,
        grayAt 8 bpp pBits' x y = if bitAt 8 mBits' x y then 2 ^ bpp - 1 else 0 := by
  have hagrees := (@gray_agrees wideFont rfl 8 (by decide) (List.replicate 16 0) 65
    (List.replicate 8 0) (by decide) (by decide)).1
  obtain ⟨adv, bpp, mBits', pBits', hm, hg, -, -, -, hpixels⟩ := hagrees
  exact ⟨adv, bpp, mBits', pBits', hm, hg, fun x hx y hy => hpixels x y hx hy⟩

end LuatosPc.Font
