import KessOS.Font
import KessOS.Writes
import Mathlib.Data.Nat.Bitwise

/-!
# What drawing does to the framebuffer

`putChar` and `draw_square` compute pixel indices from coordinates. Inside a
scanline two coordinates never share an index.

* `putChar_iff`: a character comes out right when the height of the font is 16,
  and otherwise when the rows in between do not matter;
* `drawSquare_fills`: a square inside the screen is filled, and nothing else.
-/

namespace KessOS

/-- The pixels by their index from the base address of the framebuffer. -/
abbrev Pixels := Int → Nat

/-- The index of a pixel. -/
def pixelAt (lfb : Framebuffer) (px py : Nat) : Int := (px + py * lfb.ppsl : Nat)

def Access.pixel (lfb : Framebuffer) : Access → Option (Int × Nat)
  | .read _ => none
  | .write x y color => some (pixelAt lfb x y, color)

/-- The pixels written among what was done. -/
def pixelWrites (lfb : Framebuffer) (accesses : List Access) : List (Int × Nat) :=
  accesses.filterMap (Access.pixel lfb)

theorem pixelAt_inj {lfb : Framebuffer} {px py qx qy : Nat} (hp : px < lfb.ppsl)
    (hq : qx < lfb.ppsl) (same : pixelAt lfb px py = pixelAt lfb qx qy) : px = qx ∧ py = qy := by
  have index : px + py * lfb.ppsl = qx + qy * lfb.ppsl := Int.ofNat.inj same
  have row (x y : Nat) (hx : x < lfb.ppsl) : (x + y * lfb.ppsl) / lfb.ppsl = y := by
    rw [Nat.add_mul_div_right _ _ (by omega), Nat.div_eq_of_lt hx, Nat.zero_add]
  have rows : py = qy := by rw [← row px py hp, index, row qx qy hq]
  subst rows
  exact ⟨by omega, rfl⟩

theorem pixelAt_inside {lfb : Framebuffer} {px py : Nat} (hx : px < lfb.ppsl)
    (hy : py < lfb.height) : px + py * lfb.ppsl < lfb.height * lfb.ppsl := by
  have rows : (py + 1) * lfb.ppsl ≤ lfb.height * lfb.ppsl := Nat.mul_le_mul_right _ hy
  rw [Nat.succ_mul] at rows
  omega

theorem mem_pixelWrites {lfb : Framebuffer} {accesses : List Access} {w : Int × Nat} :
    w ∈ pixelWrites lfb accesses ↔
      ∃ x y, .write x y w.2 ∈ accesses ∧ pixelAt lfb x y = w.1 := by
  obtain ⟨i, color⟩ := w
  rw [pixelWrites, List.mem_filterMap]
  constructor
  · rintro ⟨access, listed, pixel⟩
    cases access with
    | read offset => cases pixel
    | write x y hue =>
      cases pixel
      exact ⟨x, y, listed, rfl⟩
  · rintro ⟨x, y, listed, same⟩
    exact ⟨_, listed, by rw [Access.pixel, same]⟩

namespace Pixels

/-! ## Characters -/

section
variable (lfb : Framebuffer) (font : Psf1Font) (color : Nat) (chr : UInt8) (xOff yOff : Nat)

/-- The framebuffer after a character. -/
def putChar (p : Pixels) : Pixels :=
  writeAll p (pixelWrites lfb (KessOS.putChar font color chr xOff yOff []))

/-- Bit `7 - j` of row `i` of the character's glyph. -/
def glyphBit (i j : Nat) : Bool :=
  (font.glyph (chr.toNat * font.header.chsize.toNat + i)).toNat.testBit (7 - j)

/-- A bit of the first sixteen rows is set for the pixel. -/
def Inked (px py : Nat) : Prop :=
  ∃ i j, i < 16 ∧ j < 8 ∧ px = xOff + j ∧ py = yOff + i ∧ glyphBit font chr i j = true

/-- The cell holds the glyph, in the height of the font, and the rest is as before. -/
structure PaintsGlyph (p p' : Pixels) : Prop where
  cell : ∀ i j, i < font.header.chsize.toNat → j < 8 →
    p' (pixelAt lfb (xOff + j) (yOff + i)) =
      if glyphBit font chr i j then color else p (pixelAt lfb (xOff + j) (yOff + i))
  rest : ∀ px py, px < lfb.ppsl → py < lfb.height →
    ¬ ((xOff ≤ px ∧ px < xOff + 8) ∧ yOff ≤ py ∧ py < yOff + font.header.chsize.toNat) →
      p' (pixelAt lfb px py) = p (pixelAt lfb px py)

/-- Between the height of the font and 16 every bit that is set finds a pixel
that has the colour already. -/
def RowsAgree (p : Pixels) : Prop :=
  ∀ i j, min 16 font.header.chsize.toNat ≤ i → i < max 16 font.header.chsize.toNat → j < 8 →
    glyphBit font chr i j = true → p (pixelAt lfb (xOff + j) (yOff + i)) = color

end

section
variable {lfb : Framebuffer} (font : Psf1Font) (color : Nat) {chr : UInt8} {xOff yOff : Nat}

theorem mask_iff (byte : UInt8) {j : Nat} (hj : j < 8) :
    byte.toNat &&& (0b10000000 >>> j) > 0 ↔ byte.toNat.testBit (7 - j) = true := by
  have masks : ∀ j, j < 8 → 0b10000000 >>> j = 2 ^ (7 - j) := by decide
  rw [masks j hj, Nat.and_two_pow]
  cases byte.toNat.testBit (7 - j) <;> simp

theorem inks_iff (ascii : chr.toNat < 128) (right : xOff + 8 ≤ lfb.ppsl)
    (bottom : yOff + 16 ≤ lfb.height) (px py : Nat) :
    Inks font chr xOff yOff px py ↔ Inked font chr xOff yOff px py := by
  have ppslWord := lfb.ppslWord
  have heightWord := lfb.heightWord
  have offset (i : Nat) : glyphOffset font chr i =
      chr.toNat * font.header.chsize.toNat + i := by
    rw [glyphOffset, charValue, if_pos ascii]
  constructor
  · intro ink
    obtain ⟨left, atRight⟩ := ink.column
    obtain ⟨top, atBottom⟩ := ink.row
    have bit := ink.bit
    rw [mask_iff _ (by omega), offset] at bit
    exact ⟨py - yOff, px - xOff, by omega, by omega, by omega, by omega, bit⟩
  · rintro ⟨i, j, hi, hj, rfl, rfl, bit⟩
    constructor
    · omega
    · omega
    · omega
    · omega
    · rw [Nat.add_sub_cancel_left, Nat.add_sub_cancel_left, mask_iff _ hj, offset]
      exact bit

/-- What `putChar` leaves in a pixel: it paints sixteen rows. -/
theorem putChar_pixel (ascii : chr.toNat < 128) (right : xOff + 8 ≤ lfb.ppsl)
    (bottom : yOff + 16 ≤ lfb.height) (p : Pixels) {px : Nat} (py : Nat) (hx : px < lfb.ppsl) :
    (Inked font chr xOff yOff px py →
      putChar lfb font color chr xOff yOff p (pixelAt lfb px py) = color) ∧
    (¬ Inked font chr xOff yOff px py →
      putChar lfb font color chr xOff yOff p (pixelAt lfb px py) = p (pixelAt lfb px py)) := by
  have ppslWord := lfb.ppslWord
  have heightWord := lfb.heightWord
  have writes (x y hue : Nat) : .write x y hue ∈ KessOS.putChar font color chr xOff yOff [] ↔
      Inks font chr xOff yOff x y ∧ hue = color := by
    rw [mem_putChar_write font color chr (by omega) (by omega)]
    simp
  constructor
  · intro inked
    apply writeAll_mem
    · intro w listed
      obtain ⟨x, y, drawn, _⟩ := mem_pixelWrites.mp listed
      exact ((writes x y _).mp drawn).2
    · apply mem_pixelWrites.mpr
      exact ⟨px, py, (writes px py color).mpr
        ⟨(inks_iff font ascii right bottom px py).mpr inked, rfl⟩, rfl⟩
  · intro blank
    apply writeAll_other
    intro w listed same
    obtain ⟨x, y, drawn, index⟩ := mem_pixelWrites.mp listed
    have ink := ((writes x y _).mp drawn).1
    have column := ink.column
    obtain ⟨rfl, rfl⟩ := pixelAt_inj (by omega) hx (index.trans same)
    exact blank ((inks_iff font ascii right bottom x y).mp ink)

/-- **When a character comes out right**, for a font of any height. -/
theorem putChar_iff (ascii : chr.toNat < 128) (right : xOff + 8 ≤ lfb.ppsl)
    (bottom : yOff + 16 ≤ lfb.height) (p : Pixels) :
    PaintsGlyph lfb font color chr xOff yOff p (putChar lfb font color chr xOff yOff p) ↔
      RowsAgree lfb font color chr xOff yOff p := by
  have pixel (i j : Nat) (hj : j < 8) :=
    putChar_pixel font color ascii right bottom p (yOff + i) (show xOff + j < lfb.ppsl by omega)
  constructor
  · intro paints i j low high hj bit
    by_cases short : font.header.chsize.toNat ≤ 16
    · -- a row below the cell that is painted all the same
      have painted := (pixel i j hj).1 ⟨i, j, by omega, hj, rfl, rfl, bit⟩
      have kept := paints.rest (xOff + j) (yOff + i) (by omega) (by omega) (by omega)
      rw [← kept, painted]
    · -- a row of the cell that is not painted
      have kept := (pixel i j hj).2 (by rintro ⟨i', j', hi', _, _, row, _⟩; omega)
      have wanted := paints.cell i j (by omega) hj
      rw [if_pos bit] at wanted
      rw [← kept, wanted]
  · intro agree
    constructor
    · intro i j hi hj
      obtain ⟨painted, kept⟩ := pixel i j hj
      by_cases row : i < 16
      · by_cases bit : glyphBit font chr i j = true
        · rw [if_pos bit]
          exact painted ⟨i, j, row, hj, rfl, rfl, bit⟩
        · rw [if_neg bit]
          apply kept
          rintro ⟨i', j', _, _, column, row', bit'⟩
          obtain rfl : i' = i := by omega
          obtain rfl : j' = j := by omega
          exact bit bit'
      · have same := kept (by rintro ⟨i', j', hi', _, _, row', _⟩; omega)
        rw [same]
        split
        · next bit => exact agree i j (by omega) (by omega) hj bit
        · rfl
    · intro px py hx hy out
      obtain ⟨painted, kept⟩ := putChar_pixel font color ascii right bottom p py hx
      by_cases inked : Inked font chr xOff yOff px py
      · rw [painted inked]
        obtain ⟨i, j, hi, hj, rfl, rfl, bit⟩ := inked
        exact (agree i j (by omega) (by omega) hj bit).symm
      · exact kept inked

end

/-- A font of 8 rows a character, whose `B` has a full first row. -/
def smallFont : Psf1Font where
  header := ⟨0x36, 0x04, 0, 8⟩
  glyph := fun offset => if offset = 0x42 * 8 then 0xFF else 0

theorem putChar_iff_vga :
    PaintsGlyph vga smallFont 0xFFFFFF 0x40 0 0 (fun _ => 0)
        (putChar vga smallFont 0xFFFFFF 0x40 0 0 fun _ => 0) ↔
      RowsAgree vga smallFont 0xFFFFFF 0x40 0 0 fun _ => 0 :=
  putChar_iff smallFont 0xFFFFFF (by decide) (by decide) (by decide) _

/-- Under an `A` of that font the first row of `B` appears. -/
theorem smallFont_paints_next : fontHeaderBad smallFont.header = false ∧
    ¬ PaintsGlyph vga smallFont 0xFFFFFF 0x41 0 0 (fun _ => 0)
      (putChar vga smallFont 0xFFFFFF 0x41 0 0 fun _ => 0) := by
  refine ⟨by decide, fun paints => ?_⟩
  have painted : putChar vga smallFont 0xFFFFFF 0x41 0 0 (fun _ => 0) (pixelAt vga 0 8) =
      0xFFFFFF :=
    (putChar_pixel smallFont 0xFFFFFF (by decide) (by decide) (by decide) _ 8 (by decide)).1
      ⟨8, 0, by decide, by decide, rfl, rfl, by decide⟩
  have kept := paints.rest 0 8 (by decide) (by decide) (by decide)
  rw [painted] at kept
  exact absurd kept (by decide)

/-! ## Squares -/

/-- The framebuffer after a square. -/
def drawSquare (lfb : Framebuffer) (x y w h color : Nat) (p : Pixels) : Pixels :=
  writeAll p (KessOS.drawSquare lfb x y w h color [])

/-- As long as an `int` counts the pixels, an index is what it is computed from. -/
theorem index_small {lfb : Framebuffer} (counted : lfb.height * lfb.ppsl ≤ 2147483648)
    {px py : Nat} (hx : px < lfb.ppsl) (hy : py < lfb.height) :
    int32 (px + py * lfb.ppsl) = pixelAt lfb px py := by
  have inside := pixelAt_inside hx hy
  exact int32_small (by omega)

/-- **A square is filled, and nothing else.** -/
theorem drawSquare_fills {lfb : Framebuffer} {x y w h : Nat} (color : Nat)
    (counted : lfb.height * lfb.ppsl ≤ 2147483648) (right : x + w ≤ lfb.ppsl)
    (bottom : y + h ≤ lfb.height) (p : Pixels) {px py : Nat} (hx : px < lfb.ppsl)
    (hy : py < lfb.height) :
    drawSquare lfb x y w h color p (pixelAt lfb px py) =
      if (x ≤ px ∧ px < x + w) ∧ y ≤ py ∧ py < y + h then color else p (pixelAt lfb px py) := by
  have ppslWord := lfb.ppslWord
  have heightWord := lfb.heightWord
  have writes (e : Int × Nat) : e ∈ KessOS.drawSquare lfb x y w h color [] ↔
      ∃ i j, i < w ∧ j < h ∧ e = (pixelAt lfb (x + i) (y + j), color) := by
    rw [mem_drawSquare lfb (by omega) (by omega) (by omega) (by omega)]
    constructor
    · rintro (none | ⟨_, i, hi, _, j, hj, rfl⟩)
      · cases none
      · refine ⟨i, j, hi, hj, ?_⟩
        rw [index_small counted (by omega) (by omega)]
    · rintro ⟨i, j, hi, hj, rfl⟩
      refine Or.inr ⟨by omega, i, hi, by omega, j, hj, ?_⟩
      rw [index_small counted (by omega) (by omega)]
  split
  · next inside =>
    obtain ⟨⟨left, _⟩, top, _⟩ := inside
    apply writeAll_mem
    · intro e listed
      obtain ⟨i, j, _, _, rfl⟩ := (writes e).mp listed
      rfl
    · apply (writes _).mpr
      refine ⟨px - x, py - y, by omega, by omega, ?_⟩
      rw [Nat.add_sub_cancel' left, Nat.add_sub_cancel' top]
  · next outside =>
    apply writeAll_other
    intro e listed same
    obtain ⟨i, j, hi, hj, rfl⟩ := (writes e).mp listed
    obtain ⟨rfl, rfl⟩ := pixelAt_inj (by omega) hx same
    omega

theorem drawSquare_fills_vga :
    drawSquare vga 100 100 50 20 0xFFFFFF (fun _ => 0) (pixelAt vga 120 110) =
      if (100 ≤ 120 ∧ 120 < 100 + 50) ∧ 100 ≤ 110 ∧ 110 < 100 + 20 then 0xFFFFFF else 0 :=
  drawSquare_fills 0xFFFFFF (by decide) (by decide) (by decide) _ (by decide) (by decide)

end Pixels

end KessOS
