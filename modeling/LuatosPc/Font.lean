import LuatosPc.Base.Pixels

/-!
# Glyphs

The model of `get_font` and `get_Font_Gray` of `luat_gtfont_pc.c`: FreeType renders a glyph, and
its pixels are packed into the memory of the caller.

* `Bitmap`, `Slot`, `FreeType` — what FreeType gives.
* `setBit1bpp`, `setPixGray`, `draw`, `getFont`, `getFontGray` — the functions of the source.  The
  results of their `int` operations go through a function `int`: `id` for exact arithmetic,
  `int32` for 32 bits.
* `FreeType.Shows` — the pixels of a cell that the glyph has.
* `render_spec` — what is drawn, by either function; `render_int32` — with 32 bits it is the same,
  as long as the glyph is not too large.
* `glyph_packing_exact`, `gray_agrees` — the memory after each of the functions.
-/

namespace LuatosPc.Font

open LuatosPc.Pixels

/-! ## FreeType -/

/-- A `FT_Bitmap`. -/
structure Bitmap where
  rows : Nat
  width : Nat
  pitch : Nat
  buffer : List (BitVec 8)
  width_le : width ≤ pitch
  length_buffer : buffer.length = rows * pitch

/-- A `FT_GlyphSlot`. -/
structure Slot where
  bitmap : Bitmap
  bitmapTop : Int
  advanceX : Int

/-- The library with its face: whether it is initialised, the ascender that the face has with a
number of pixels, and the glyph of a code point; without a result where a call fails. -/
structure FreeType where
  ok : Bool
  setPixelSizes : Nat → Option Int
  loadChar : Nat → Nat → Option Slot

/-- The ascender and the glyph for a character of `h` pixels. -/
def FreeType.glyph (ft : FreeType) (h fontCode : Nat) : Option (Int × Slot) := do
  let ascender ← ft.setPixelSizes h
  let codepoint := fontCode % 2 ^ 32
  let slot ← ft.loadChar h codepoint
  return (ascender, slot)

/-! ## The functions of the source -/

/-- The result of an operation on `int`s of 32 bits. -/
def int32 (x : Int) : Int := x.bmod (2 ^ 32)

def setBit1bpp (w : Nat) (buf : Bits) (x y : Nat) : Option Bits :=
  let bytesPerRow := (w + 7) / 8
  let byteIndex := y * bytesPerRow + x / 8
  let bitPos := 7 - x % 8
  updateAt buf byteIndex (· ||| 1#8 <<< bitPos)

def setPixGray (w bpp : Nat) (val : BitVec 8) (buf : Bits) (x y : Nat) : Option Bits :=
  if bpp = 4 then
    let bytesPerRow := (w + 7) / 8 * 4
    let byteIndex := y * bytesPerRow + x / 2
    let shift := (1 - x % 2) * 4
    let mask := 0x0F#8 <<< shift
    updateAt buf byteIndex (· &&& ~~~mask ||| (val &&& 0x0F#8) <<< shift)
  else if bpp = 2 then
    let bytesPerRow := (w + 7) / 8 * 2
    let byteIndex := y * bytesPerRow + x / 4
    let shift := (3 - x % 4) * 2
    let mask := 0x03#8 <<< shift
    updateAt buf byteIndex (· &&& ~~~mask ||| (val &&& 0x03#8) <<< shift)
  else some buf

/-- `bm->buffer[i]`. -/
def Bitmap.read (bm : Bitmap) (i : Int) : Option (BitVec 8) :=
  if 0 ≤ i then bm.buffer[i.toNat]? else none

section

variable (int : Int → Int)

/-- The row at which the glyph begins. -/
def offY (ascender : Int) (slot : Slot) (h : Nat) : Int :=
  let ascPx := int (ascender >>> (6 : Nat))
  let ascPx := if ascPx < 0 then 0 else ascPx
  let ascPx := if ascPx > h then (h : Int) else ascPx
  int (ascPx - slot.bitmapTop)

/-- The inner loop, where `set` writes a pixel. -/
def drawRow (set : Bits → Nat → Nat → Option Bits) (bm : Bitmap) (w : Nat) (dy : Int) (yy : Nat)
    (pBits : Bits) : Option Bits :=
  (List.range (int bm.width).toNat).foldlM (fun pBits (xx : Nat) =>
    let dx := int (0 + xx)
    if dx < 0 ∨ dx ≥ w then some pBits
    else do
      let val ← bm.read (int (int (yy * bm.pitch) + xx))
      if val > 127#8 then set pBits dx.toNat dy.toNat else some pBits) pBits

/-- The outer loop. -/
def draw (set : Bits → Nat → Nat → Option Bits) (bm : Bitmap) (w h : Nat) (offY : Int)
    (pBits : Bits) : Option Bits :=
  (List.range (int bm.rows).toNat).foldlM (fun pBits (yy : Nat) =>
    let dy := int (offY + yy)
    if dy < 0 ∨ dy ≥ h then some pBits
    else drawRow int set bm w dy yy pBits) pBits

/-- The width that is returned. -/
def advance (w : Nat) (slot : Slot) : Nat :=
  let adv := (((slot.advanceX + 32) >>> (6 : Nat)) % 2 ^ 32).toNat
  let adv := if adv > w then w else adv
  let adv := if adv < slot.bitmap.width then slot.bitmap.width else adv
  if adv = 0 then slot.bitmap.width else adv

/-- The bits for a pixel. -/
def grayBpp (fontSize : UInt8) : Nat := if fontSize ≥ 16 ∧ fontSize < 34 then 4 else 2

/-- What both functions do with the memory that they have cleared. -/
def render (ft : FreeType) (set : Bits → Nat → Nat → Option Bits) (w h fontCode : Nat)
    (pBits : Bits) : Option (Nat × Bits) :=
  match ft.glyph h fontCode with
  | none => some (0, pBits)
  | some (ascender, slot) => do
    let pBits ← draw int set slot.bitmap w h (offY int ascender slot h) pBits
    return (advance w slot, pBits)

/-- `get_font`, for a `pBits` that is not `NULL`. -/
def getFont (ft : FreeType) (pBits : Bits) (fontCode : Nat) (width height : UInt8) :
    Option (Nat × Bits) :=
  if width = 0 ∨ height = 0 ∨ ft.ok = false then some (0, pBits)
  else do
    let w := width.toNat
    let h := height.toNat
    let pBits ← clear pBits ((w + 7) / 8 * h)
    render int ft (setBit1bpp w) w h fontCode pBits

/-- `get_Font_Gray`, for a `pBits` that is not `NULL`: `re_buff[0]`, `re_buff[1]` and the memory. -/
def getFontGray (ft : FreeType) (pBits : Bits) (fontCode : Nat) (fontSize : UInt8) :
    Option (Nat × Nat × Bits) :=
  if fontSize = 0 ∨ ft.ok = false then some (0, 2, pBits)
  else do
    let w := fontSize.toNat
    let h := fontSize.toNat
    let bpp := grayBpp fontSize
    let bytesPerRow := (w + 7) / 8 * bpp
    let pBits ← clear pBits (bytesPerRow * h)
    let set := if bpp = 4 then setPixGray w 4 0x0F#8 else setPixGray w 2 0x03#8
    let (adv, pBits) ← render int ft set w h fontCode pBits
    return (adv, bpp, pBits)

end

/-! ## The packings -/

/-- One bit for a pixel. -/
def mono (w : Nat) : Layout := ⟨1, 8, (w + 7) / 8, rfl⟩

/-- Several bits for a pixel. -/
def gray (w bpp : Nat) (size : 8 / bpp * bpp = 8) : Layout :=
  ⟨bpp, 8 / bpp, (w + 7) / 8 * bpp, size⟩

theorem setBit1bpp_eq (w : Nat) : setBit1bpp w = (mono w).setPixel 1#1 := by
  have hbyte : ∀ (b : BitVec 8) (s : Nat),
      b ||| 1#8 <<< s = b &&& ~~~(1#8 <<< s) ||| 1#8 <<< s := by
    intro b s
    apply BitVec.eq_of_getLsbD_eq
    intro i hi
    simp only [BitVec.getLsbD_or, BitVec.getLsbD_and, BitVec.getLsbD_not, hi, decide_true,
      Bool.true_and]
    cases b.getLsbD i <;> cases (1#8 <<< s).getLsbD i <;> rfl
  funext buf x y
  have hshift : (mono w).shift x = 7 - x % 8 := Nat.mul_one _
  have hput : (· ||| 1#8 <<< (7 - x % 8)) = ((mono w).put · x 1#1) := by
    funext b
    show _ = b &&& ~~~(1#8 <<< (mono w).shift x) ||| 1#8 <<< (mono w).shift x
    rw [hshift, hbyte]
  show updateAt buf ((mono w).index x y) _ = _
  rw [hput]
  rfl

theorem setPixGray2_eq (w : Nat) :
    setPixGray w 2 0x03#8 = (gray w 2 rfl).setPixel (BitVec.allOnes 2) := rfl

theorem setPixGray4_eq (w : Nat) :
    setPixGray w 4 0x0F#8 = (gray w 4 rfl).setPixel (BitVec.allOnes 4) := rfl

/-! ## What is drawn -/

/-- The glyph is bright at a place. -/
def Bitmap.Bright (bm : Bitmap) (x yy : Nat) : Prop :=
  x < bm.width ∧ bm.buffer.getD (yy * bm.pitch + x) 0 > 127#8

/-- The glyph has a pixel with a value above 127 in a column and a row. -/
def Slot.HasPixel (slot : Slot) (x : Nat) (row : Int) : Prop :=
  0 ≤ row ∧ row < slot.bitmap.rows ∧ slot.bitmap.Bright x row.toNat

instance (bm : Bitmap) (x yy : Nat) : Decidable (bm.Bright x yy) :=
  inferInstanceAs (Decidable (_ ∧ _))

instance (slot : Slot) (x : Nat) (row : Int) : Decidable (slot.HasPixel x row) :=
  inferInstanceAs (Decidable (_ ∧ _ ∧ _))

/-- The ascender in pixels, clamped to the cell. -/
def clampedAscender (ascender : Int) (h : Nat) : Int := max 0 (min (ascender >>> (6 : Nat)) h)

theorem offY_eq (ascender : Int) (slot : Slot) (h : Nat) :
    offY id ascender slot h = clampedAscender ascender h - slot.bitmapTop := by
  simp only [offY, clampedAscender, id]
  split <;> split <;> omega

/-- The pixels of the bitmap are among its bytes. -/
theorem Bitmap.index_lt (bm : Bitmap) {x yy : Nat} (hx : x < bm.width) (hy : yy < bm.rows) :
    yy * bm.pitch + x < bm.rows * bm.pitch := by
  calc yy * bm.pitch + x < yy * bm.pitch + bm.pitch :=
        Nat.add_lt_add_left (hx.trans_le bm.width_le) _
    _ = (yy + 1) * bm.pitch := by rw [Nat.add_mul, Nat.one_mul]
    _ ≤ bm.rows * bm.pitch := Nat.mul_le_mul_right _ hy

/-- The bytes of the bitmap that the loops read are there. -/
theorem Bitmap.read_eq (bm : Bitmap) {x yy : Nat} (hx : x < bm.width) (hy : yy < bm.rows) :
    bm.read (yy * bm.pitch + x) = some (bm.buffer.getD (yy * bm.pitch + x) 0) := by
  have hlt : yy * bm.pitch + x < bm.buffer.length := by
    rw [bm.length_buffer]
    exact bm.index_lt hx hy
  have hindex : ((yy : Int) * bm.pitch + x).toNat = yy * bm.pitch + x := by
    norm_cast
  rw [Bitmap.read, if_pos (by positivity), hindex, List.getD_eq_getElem?_getD,
    List.getElem?_eq_getElem hlt]
  rfl

section

variable {L : Layout} {v : BitVec L.bits} {w h : Nat} {buf pBits : Bits} {S : Nat → Nat → Prop}
  (hwide : w ≤ L.perByte * L.stride) (hroom : L.stride * h ≤ buf.length)

include hwide hroom

/-- **One row**, drawn with exact arithmetic. -/
theorem drawRow_spec (bm : Bitmap) {y yy : Nat} (hy : y < h) (hyy : yy < bm.rows)
    (hp : L.Painted v h buf S pBits) :
    ∃ pBits', drawRow id (L.setPixel v) bm w y yy pBits = some pBits' ∧
      L.Painted v h buf (fun x' y' => S x' y' ∨ y' = y ∧ x' < w ∧ bm.Bright x' yy) pBits' := by
  -- the pixels of the columns before `n`
  let upTo (n : Nat) (x' y' : Nat) : Prop :=
    S x' y' ∨ y' = y ∧ x' < w ∧ x' < n ∧ bm.buffer.getD (yy * bm.pitch + x') 0 > 127#8
  have hsucc : ∀ n x' y', upTo (n + 1) x' y' ↔
      upTo n x' y' ∨ (n < w ∧ bm.buffer.getD (yy * bm.pitch + n) 0 > 127#8) ∧ x' = n ∧ y' = y := by
    intro n x' y'
    by_cases hn : x' = n
    · subst hn
      simp only [upTo, Nat.lt_succ_self, lt_irrefl, true_and, false_and, and_false, or_false]
      rw [and_comm (a := y' = y), and_assoc]
    · have hlt : x' < n + 1 ↔ x' < n := by omega
      simp only [upTo, hlt, hn, false_and, and_false, or_false]
  refine forRange_invariant (fun n => L.Painted v h buf (upTo n)) ?_ ?_
  · exact hp.congr fun x' y' _ => by simp [upTo]
  · intro xx hxx pBits hp
    have hxx : xx < bm.width := hxx
    have hskip : ¬ (xx < w ∧ bm.buffer.getD (yy * bm.pitch + xx) 0 > 127#8) →
        L.Painted v h buf (upTo (xx + 1)) pBits :=
      fun hno => hp.congr fun x' y' _ => by rw [hsucc, or_iff_left fun hpixel => hno hpixel.1]
    simp only [id, zero_add]
    by_cases hw : xx < w
    · rw [if_neg (by omega), bm.read_eq hxx hyy]
      simp only [Option.bind_eq_bind, Option.bind_some, Int.toNat_natCast]
      by_cases hbright : bm.buffer.getD (yy * bm.pitch + xx) 0 > 127#8
      · obtain ⟨pBits', hset, hp'⟩ := hp.set hroom (x := xx) (y := y) ⟨by omega, hy⟩
        refine ⟨pBits', by rw [if_pos hbright, hset], hp'.congr fun x' y' _ => ?_⟩
        rw [hsucc, and_iff_right (And.intro hw hbright)]
      · exact ⟨pBits, if_neg hbright, hskip fun hpixel => hbright hpixel.2⟩
    · exact ⟨pBits, if_pos (by omega), hskip fun hpixel => hw hpixel.1⟩

/-- **All rows**, drawn with exact arithmetic. -/
theorem draw_spec (bm : Bitmap) (offY : Int) (hp : L.Painted v h buf (fun _ _ => False) pBits) :
    ∃ pBits', draw id (L.setPixel v) bm w h offY pBits = some pBits' ∧
      L.Painted v h buf
        (fun x y => x < w ∧ ∃ yy < bm.rows, (y : Int) = offY + yy ∧ bm.Bright x yy) pBits' := by
  -- the pixels of the rows before `n`
  let upTo (n : Nat) (x y : Nat) : Prop :=
    x < w ∧ ∃ yy < n, (y : Int) = offY + yy ∧ bm.Bright x yy
  have hsucc : ∀ n x y, upTo (n + 1) x y ↔
      upTo n x y ∨ (y : Int) = offY + n ∧ x < w ∧ bm.Bright x n := by
    intro n x y
    constructor
    · rintro ⟨hx, yy, hyy, hy, hbright⟩
      obtain hlt | rfl := Nat.lt_succ_iff_lt_or_eq.1 hyy
      · exact .inl ⟨hx, yy, hlt, hy, hbright⟩
      · exact .inr ⟨hy, hx, hbright⟩
    · rintro (⟨hx, yy, hyy, hy, hbright⟩ | ⟨hy, hx, hbright⟩)
      · exact ⟨hx, yy, by omega, hy, hbright⟩
      · exact ⟨hx, n, by omega, hy, hbright⟩
  refine forRange_invariant (fun n => L.Painted v h buf (upTo n)) ?_ ?_
  · exact hp.congr fun x y _ => by simp [upTo]
  · intro yy hyy pBits hp
    have hyy : yy < bm.rows := hyy
    simp only [id]
    by_cases hout : offY + yy < 0 ∨ offY + yy ≥ h
    · refine ⟨pBits, if_pos hout, hp.congr fun x y hin => ?_⟩
      have hy : ¬ (y : Int) = offY + yy := by
        have := hin.2
        omega
      rw [hsucc, or_iff_left fun hrow => hy hrow.1]
    · obtain ⟨y, hy⟩ := Int.eq_ofNat_of_zero_le (show 0 ≤ offY + yy by omega)
      obtain ⟨pBits', hrow, hp'⟩ := drawRow_spec hwide hroom bm (y := y) (by omega) hyy hp
      refine ⟨pBits', by rw [if_neg hout, hy, hrow], hp'.congr fun x' y' _ => ?_⟩
      rw [hsucc, hy, Int.natCast_inj]

/-- The pixels of a cell that the glyph has. -/
def FreeType.Shows (ft : FreeType) (w h fontCode x y : Nat) : Prop :=
  x < w ∧ ∃ ascender slot, ft.glyph h fontCode = some (ascender, slot) ∧
    slot.HasPixel x (y - (clampedAscender ascender h - slot.bitmapTop))

/-- The width of the glyph; 0 without one. -/
def FreeType.advance (ft : FreeType) (w h fontCode : Nat) : Nat :=
  match ft.glyph h fontCode with
  | none => 0
  | some (_, slot) => Font.advance w slot

/-- What is drawn in memory that has been cleared. -/
theorem render_cleared (ft : FreeType) (fontCode : Nat)
    (hp : L.Painted v h buf (fun _ _ => False) pBits) :
    ∃ pBits', render id ft (L.setPixel v) w h fontCode pBits =
        some (ft.advance w h fontCode, pBits') ∧
      L.Painted v h buf (ft.Shows w h fontCode) pBits' := by
  unfold render FreeType.advance
  cases hglyph : ft.glyph h fontCode with
  | none =>
    refine ⟨pBits, rfl, hp.congr fun x y _ => ?_⟩
    simp [FreeType.Shows, hglyph]
  | some glyph =>
    obtain ⟨ascender, slot⟩ := glyph
    obtain ⟨pBits', hdraw, hp'⟩ :=
      draw_spec hwide hroom slot.bitmap (offY id ascender slot h) hp
    refine ⟨pBits', ?_, hp'.congr fun x y _ => ?_⟩
    · simp only [hdraw, Option.bind_eq_bind, Option.bind_some, Option.pure_def]
    · rw [offY_eq]
      simp only [FreeType.Shows, hglyph, Option.some.injEq, Prod.mk.injEq, Slot.HasPixel]
      constructor
      · rintro ⟨hx, yy, hyy, hy, hbright⟩
        have hrow : (y : Int) - (clampedAscender ascender h - slot.bitmapTop) = yy := by omega
        refine ⟨hx, ascender, slot, ⟨rfl, rfl⟩, ?_⟩
        rw [hrow, Int.toNat_natCast]
        exact ⟨by omega, by omega, hbright⟩
      · rintro ⟨hx, _, _, ⟨rfl, rfl⟩, hpos, hrows, hbright⟩
        exact ⟨hx, _, by omega, by omega, hbright⟩

/-- **What both functions do**: the pixels of the glyph are drawn, and no others. -/
theorem render_spec (ft : FreeType) (fontCode : Nat) :
    ∃ buf', ((clear buf (L.stride * h)).bind (render id ft (L.setPixel v) w h fontCode)) =
        some (ft.advance w h fontCode, buf') ∧
      L.Painted v h buf (ft.Shows w h fontCode) buf' := by
  obtain ⟨cleared, hclear, hp⟩ := Layout.painted_clear (v := v) hroom
  rw [hclear]
  exact render_cleared hwide hroom ft fontCode hp

end

/-! ## Arithmetic with 32 bits -/

/-- The glyph is small enough for `int`s of 32 bits. -/
structure Slot.Fits (slot : Slot) (ascender : Int) : Prop where
  ascender : -2 ^ 31 ≤ ascender >>> (6 : Nat) ∧ ascender >>> (6 : Nat) < 2 ^ 31
  rows : slot.bitmap.rows + slot.bitmapTop.natAbs + 255 < 2 ^ 31
  width : slot.bitmap.width < 2 ^ 31
  bytes : slot.bitmap.rows * slot.bitmap.pitch < 2 ^ 31

theorem int32_of_range {x : Int} (hlow : -2 ^ 31 ≤ x) (hhigh : x < 2 ^ 31) : int32 x = x :=
  Int.bmod_eq_of_le_mul_two (by push_cast; omega) (by push_cast; omega)

theorem offY_int32 {ascender : Int} {slot : Slot} (hfits : slot.Fits ascender) {h : Nat}
    (hh : h ≤ 255) :
    offY int32 ascender slot h = offY id ascender slot h ∧
      (offY id ascender slot h).natAbs ≤ 255 + slot.bitmapTop.natAbs := by
  have hrows := hfits.rows
  have habs : (offY id ascender slot h).natAbs ≤ 255 + slot.bitmapTop.natAbs := by
    rw [offY_eq, clampedAscender]
    omega
  refine ⟨?_, habs⟩
  have hascender := int32_of_range hfits.ascender.1 hfits.ascender.2
  unfold offY at habs ⊢
  rw [hascender]
  simp only [id] at habs ⊢
  exact int32_of_range (by omega) (by omega)

theorem drawRow_int32 {ascender : Int} {slot : Slot} (hfits : slot.Fits ascender)
    (set : Bits → Nat → Nat → Option Bits) (w : Nat) (dy : Int) {yy : Nat}
    (hyy : yy < slot.bitmap.rows) (pBits : Bits) :
    drawRow int32 set slot.bitmap w dy yy pBits = drawRow id set slot.bitmap w dy yy pBits := by
  have hwidth := hfits.width
  have hbytes := hfits.bytes
  unfold drawRow
  rw [int32_of_range (x := slot.bitmap.width) (by omega) (by omega)]
  apply forRange_congr
  intro xx hxx b
  have hxx : xx < slot.bitmap.width := hxx
  have hindex := slot.bitmap.index_lt hxx hyy
  have hcast : (yy : Int) * slot.bitmap.pitch = (yy * slot.bitmap.pitch : Nat) := by push_cast; rfl
  have hrow : int32 (yy * slot.bitmap.pitch) = yy * slot.bitmap.pitch := by
    rw [hcast]
    exact int32_of_range (by omega) (by omega)
  have hbyte : int32 (yy * slot.bitmap.pitch + xx) = yy * slot.bitmap.pitch + xx := by
    rw [hcast]
    exact int32_of_range (by omega) (by omega)
  have hdx : int32 (0 + xx) = 0 + xx := int32_of_range (by omega) (by omega)
  simp only [hrow, hbyte, hdx, id]

/-- **With 32 bits**, the same is drawn. -/
theorem render_int32 {ft : FreeType} {h fontCode : Nat} (hh : h ≤ 255)
    (hfits : ∀ ascender slot, ft.glyph h fontCode = some (ascender, slot) → slot.Fits ascender)
    (set : Bits → Nat → Nat → Option Bits) (w : Nat) (pBits : Bits) :
    render int32 ft set w h fontCode pBits = render id ft set w h fontCode pBits := by
  unfold render
  cases hglyph : ft.glyph h fontCode with
  | none => rfl
  | some glyph =>
    obtain ⟨ascender, slot⟩ := glyph
    have hfits := hfits ascender slot hglyph
    have hrows := hfits.rows
    obtain ⟨hoff, habs⟩ := offY_int32 hfits hh
    have hdraw : draw int32 set slot.bitmap w h (offY id ascender slot h) pBits =
        draw id set slot.bitmap w h (offY id ascender slot h) pBits := by
      unfold draw
      rw [int32_of_range (x := slot.bitmap.rows) (by omega) (by omega)]
      apply forRange_congr
      intro yy hyy b
      have hyy : yy < slot.bitmap.rows := hyy
      have hdy : int32 (offY id ascender slot h + yy) = offY id ascender slot h + yy :=
        int32_of_range (by omega) (by omega)
      simp only [hdy, drawRow_int32 hfits set w _ hyy, id]
    simp only [hoff, hdraw]

/-! ## One bit for a pixel -/

/-- The bit of a pixel. -/
def bitAt (w : Nat) (pBits : Bits) (x y : Nat) : Bool :=
  (pBits.getD (y * ((w + 7) / 8) + x / 8) 0).getLsbD (7 - x % 8)

theorem bitAt_eq (w : Nat) (pBits : Bits) (x y : Nat) :
    bitAt w pBits x y = ((mono w).pixel pBits x y).getLsbD 0 := by
  have hshift : (mono w).shift x = 7 - x % 8 := Nat.mul_one _
  show _ = (BitVec.extractLsb' ((mono w).shift x) 1
    (pBits.getD ((mono w).index x y) 0)).getLsbD 0
  rw [BitVec.getLsbD_extractLsb', hshift, Nat.add_zero]
  exact (Bool.true_and _).symm

/-- **The memory after `get_font`**, with exact arithmetic. -/
theorem getFont_spec {ft : FreeType} (hok : ft.ok = true) (fontCode : Nat) {width height : UInt8}
    (hw : width ≠ 0) (hh : height ≠ 0) {pBits : Bits}
    (hroom : (width.toNat + 7) / 8 * height.toNat ≤ pBits.length) :
    ∃ pBits', getFont id ft pBits fontCode width height =
        some (ft.advance width.toNat height.toNat fontCode, pBits') ∧
      pBits'.length = pBits.length ∧
      pBits'.drop ((width.toNat + 7) / 8 * height.toNat) =
        pBits.drop ((width.toNat + 7) / 8 * height.toNat) ∧
      ∀ x y, x < 8 * ((width.toNat + 7) / 8) → y < height.toNat →
        (bitAt width.toNat pBits' x y = true ↔
          ft.Shows width.toNat height.toNat fontCode x y) := by
  have hwide : width.toNat ≤ (mono width.toNat).perByte * (mono width.toNat).stride := by
    show width.toNat ≤ 8 * ((width.toNat + 7) / 8)
    omega
  obtain ⟨pBits', hrender, hp'⟩ := render_spec (v := 1#1) hwide hroom ft fontCode
  refine ⟨pBits', ?_, hp'.length, hp'.rest, ?_⟩
  · have hgo : ¬ (width = 0 ∨ height = 0 ∨ ft.ok = false) := by simp [hw, hh, hok]
    rw [← setBit1bpp_eq] at hrender
    rw [getFont, if_neg hgo]
    exact hrender
  · intro x y hx hy
    rw [bitAt_eq]
    by_cases hshows : ft.Shows width.toNat height.toNat fontCode x y
    · rw [hp'.on x y ⟨hx, hy⟩ hshows]
      simp [hshows]
    · rw [hp'.off x y ⟨hx, hy⟩ hshows]
      simp [hshows]

/-- **Glyphs are packed exactly.**  For every glyph, `get_font` writes the bytes of the cell only,
and a bit is set if and only if it belongs to a pixel of the cell at which the glyph has a value
above 127.  With 32 bits it does the same, as long as the numbers of the glyph fit. -/
theorem glyph_packing_exact {ft : FreeType} (hok : ft.ok = true) {fontCode : Nat}
    {width height : UInt8} (hw : width ≠ 0) (hh : height ≠ 0) {ascender : Int} {slot : Slot}
    (hglyph : ft.glyph height.toNat fontCode = some (ascender, slot)) {pBits : Bits}
    (hroom : (width.toNat + 7) / 8 * height.toNat ≤ pBits.length) :
    (∃ adv pBits', getFont id ft pBits fontCode width height = some (adv, pBits') ∧
      pBits'.length = pBits.length ∧
      pBits'.drop ((width.toNat + 7) / 8 * height.toNat) =
        pBits.drop ((width.toNat + 7) / 8 * height.toNat) ∧
      ∀ x y, x < 8 * ((width.toNat + 7) / 8) → y < height.toNat →
        (bitAt width.toNat pBits' x y = true ↔
          x < width.toNat ∧
            slot.HasPixel x (y - (clampedAscender ascender height.toNat - slot.bitmapTop)))) ∧
      (slot.Fits ascender →
        getFont int32 ft pBits fontCode width height =
          getFont id ft pBits fontCode width height) := by
  constructor
  · obtain ⟨pBits', hget, hlen, hrest, hbits⟩ := getFont_spec hok fontCode hw hh hroom
    refine ⟨_, pBits', hget, hlen, hrest, ?_⟩
    intro x y hx hy
    rw [hbits x y hx hy, FreeType.Shows, hglyph]
    simp
  · intro hfits
    have hfits' : ∀ asc s, ft.glyph height.toNat fontCode = some (asc, s) → s.Fits asc := by
      intro asc s h
      cases hglyph.symm.trans h
      exact hfits
    have hh255 : height.toNat ≤ 255 := by
      have := height.toNat_lt
      omega
    simp only [getFont, render_int32 hh255 hfits']

/-- A glyph of three rows of ten pixels, the first of them above the line of the ascender, with
two bytes more behind each row. -/
def wideSlot : Slot where
  bitmap := {
    rows := 3
    width := 10
    pitch := 12
    buffer :=
      [255#8, 255#8, 255#8, 255#8, 255#8, 255#8, 255#8, 255#8, 255#8, 255#8, 0#8, 0#8,
        200#8, 127#8, 0#8, 0#8, 0#8, 0#8, 128#8, 255#8, 255#8, 255#8, 0#8, 0#8,
        0#8, 0#8, 255#8, 0#8, 0#8, 0#8, 0#8, 0#8, 0#8, 0#8, 255#8, 255#8]
    width_le := by decide
    length_buffer := rfl }
  bitmapTop := 3
  advanceX := 640

/-- A face in which it is the only glyph. -/
def wideFont : FreeType := ⟨true, fun _ => some 128, fun _ _ => some wideSlot⟩

/-- In a cell of seven columns and three rows, the first row and the last columns are cut off. -/
theorem glyph_packing_exact_wide :
    ∃ adv pBits', getFont id wideFont (List.replicate 4 0xFF#8) 65 7 3 = some (adv, pBits') ∧
      pBits'.length = 4 ∧ pBits'.drop 3 = [0xFF#8] ∧
      (∀ x < 8, bitAt 7 pBits' x 0 = true ↔ x = 0 ∨ x = 6) ∧
      (∀ x < 8, bitAt 7 pBits' x 1 = true ↔ x = 2) ∧ ∀ x < 8, bitAt 7 pBits' x 2 = false := by
  have hexact := (@glyph_packing_exact wideFont rfl 65 7 3 (by decide) (by decide) _ _ rfl
    (List.replicate 4 0xFF#8) (by decide)).1
  obtain ⟨adv, pBits', hget, hlen, hrest, hbits⟩ := hexact
  refine ⟨adv, pBits', hget, hlen, hrest, fun x hx => ?_, fun x hx => ?_, fun x hx => ?_⟩
  · refine (hbits x 0 hx (by decide)).trans ?_
    revert x
    decide
  · refine (hbits x 1 hx (by decide)).trans ?_
    revert x
    decide
  · refine Bool.eq_false_iff.2 (mt (hbits x 2 hx (by decide)).1 ?_)
    revert x
    decide

end LuatosPc.Font
