import KessOS.FrameBuffer

/-!
# Characters of a PSF1 font

The bootloader loads the font, and its `putChar` and the kernel's are the same
function. It reads sixteen rows of a glyph, whatever the height of the font's
characters is.

* `mem_putChar_read`: which bytes of the glyph buffer it reads;
* `mem_putChar_write`: which pixels it writes.
-/

namespace KessOS

structure Psf1Header where
  magic0 : UInt8
  magic1 : UInt8
  mode : UInt8
  chsize : UInt8

/-- The header, and memory around the glyph buffer by the offset into it. -/
structure Psf1Font where
  header : Psf1Header
  glyph : Int → UInt8

/-- `loadFont` tests the magic numbers bit by bit. -/
def fontHeaderBad (fontHeader : Psf1Header) : Bool :=
  fontHeader.magic0 &&& 0x36 == 0 || fontHeader.magic1 &&& 0x04 == 0

def glyphBufferSize (fontHeader : Psf1Header) : Nat :=
  if fontHeader.mode = 1 then fontHeader.chsize.toNat * 512 else fontHeader.chsize.toNat * 255

/-- The value of a `char`, which is signed. -/
def charValue (chr : UInt8) : Int :=
  if chr.toNat < 128 then chr.toNat else chr.toNat - 256

/-- A glyph byte read, at an offset into the glyph buffer, or a pixel written. -/
inductive Access where
  | read (offset : Int)
  | write (x y color : Nat)

def glyphPixel (font : Psf1Font) (color xOff : Nat) (fontPtr : Int) (y x : Nat)
    (out : List Access) : List Access :=
  let out := .read fontPtr :: out
  if (font.glyph fontPtr).toNat &&& (0b10000000 >>> (x - xOff)) > 0 then .write x y color :: out
  else out

/-- `for (unsigned long x = xOff; x < xOff+8; x++)`, the sum being an `unsigned int`. -/
def glyphRow (font : Psf1Font) (color xOff : Nat) (fontPtr : Int) (y : Nat)
    (out : List Access) : List Access :=
  (List.range ((xOff + 8) % 4294967296 - xOff)).foldl
    (fun out k => glyphPixel font color xOff fontPtr y (xOff + k) out) out

/-- Where `fontPtr` points in row `r` of a character. -/
def glyphOffset (font : Psf1Font) (chr : UInt8) (r : Nat) : Int :=
  charValue chr * font.header.chsize.toNat + r

/-- What drawing a character does, put in front of what was done before. -/
def putChar (font : Psf1Font) (color : Nat) (chr : UInt8) (xOff yOff : Nat)
    (out : List Access) : List Access :=
  (List.range ((yOff + 16) % 4294967296 - yOff)).foldl
    (fun out r => glyphRow font color xOff (glyphOffset font chr r) (yOff + r) out) out

/-! ## What is read and written -/

theorem mem_glyphPixel_read (font : Psf1Font) (color xOff : Nat) (fontPtr : Int) (y x : Nat)
    (offset : Int) (out : List Access) :
    .read offset ∈ glyphPixel font color xOff fontPtr y x out ↔
      .read offset ∈ out ∨ offset = fontPtr := by
  unfold glyphPixel
  dsimp only
  split <;> simp [or_comm]

theorem mem_glyphPixel_write (font : Psf1Font) (color xOff : Nat) (fontPtr : Int) (y x : Nat)
    (px py c : Nat) (out : List Access) :
    .write px py c ∈ glyphPixel font color xOff fontPtr y x out ↔ .write px py c ∈ out ∨
      (px = x ∧ py = y ∧ c = color) ∧
        (font.glyph fontPtr).toNat &&& (0b10000000 >>> (x - xOff)) > 0 := by
  unfold glyphPixel
  dsimp only
  split
  · next set => simp [set, or_comm]
  · next clear => simp [clear]

/-- The bound of a loop over `n` values from `a` wraps when it reaches 2^32. -/
theorem span_eq {a n : Nat} (ha : a < 4294967296) (hn : n < 4294967296) :
    (a + n) % 4294967296 - a = if a + n < 4294967296 then n else 0 := by
  split <;> omega

theorem mem_range_span {β : Type} {e : β} {P : Nat → Prop} {g : Nat → List β → List β}
    {a n : Nat} (ha : a < 4294967296) (hn : n < 4294967296)
    (step : ∀ k out, e ∈ g k out ↔ e ∈ out ∨ P k) (out : List β) :
    e ∈ (List.range ((a + n) % 4294967296 - a)).foldl (fun out k => g k out) out ↔
      e ∈ out ∨ a + n < 4294967296 ∧ ∃ k, k < n ∧ P k := by
  rw [mem_foldl_range step, span_eq ha hn]
  by_cases inside : a + n < 4294967296
  · simp only [inside, ↓reduceIte, true_and]
  · simp [inside]

theorem mem_glyphRow_read (font : Psf1Font) (color : Nat) {xOff : Nat} (hx : xOff < 4294967296)
    (fontPtr : Int) (y : Nat) (offset : Int) (out : List Access) :
    .read offset ∈ glyphRow font color xOff fontPtr y out ↔
      .read offset ∈ out ∨ xOff + 8 < 4294967296 ∧ offset = fontPtr := by
  refine (mem_range_span hx (show 8 < 4294967296 by omega) (fun k out =>
    mem_glyphPixel_read font color xOff fontPtr y (xOff + k) offset out) out).trans ?_
  refine or_congr_right (and_congr_right fun _ => ?_)
  constructor
  · rintro ⟨_, _, same⟩
    exact same
  · intro same
    exact ⟨0, by omega, same⟩

theorem mem_glyphRow_write (font : Psf1Font) (color : Nat) {xOff : Nat} (hx : xOff < 4294967296)
    (fontPtr : Int) (y px py c : Nat) (out : List Access) :
    .write px py c ∈ glyphRow font color xOff fontPtr y out ↔ .write px py c ∈ out ∨
      xOff + 8 < 4294967296 ∧ ∃ k, k < 8 ∧ (px = xOff + k ∧ py = y ∧ c = color) ∧
        (font.glyph fontPtr).toNat &&& (0b10000000 >>> (xOff + k - xOff)) > 0 :=
  mem_range_span hx (show 8 < 4294967296 by omega) (fun k out =>
    mem_glyphPixel_write font color xOff fontPtr y (xOff + k) px py c out) out

/-- **A character reads sixteen rows**, unless a bound of its loops wraps. -/
theorem mem_putChar_read (font : Psf1Font) (color : Nat) (chr : UInt8) {xOff yOff : Nat}
    (hx : xOff < 4294967296) (hy : yOff < 4294967296) (offset : Int) (out : List Access) :
    .read offset ∈ putChar font color chr xOff yOff out ↔ .read offset ∈ out ∨
      yOff + 16 < 4294967296 ∧ ∃ r : Nat, r < 16 ∧ xOff + 8 < 4294967296 ∧
        offset = glyphOffset font chr r :=
  mem_range_span hy (show 16 < 4294967296 by omega) (fun r out =>
    mem_glyphRow_read font color hx (glyphOffset font chr r) (yOff + r) offset out) out

/-- The character at these offsets sets the pixel. -/
structure Inks (font : Psf1Font) (chr : UInt8) (xOff yOff px py : Nat) : Prop where
  right : xOff + 8 < 4294967296
  bottom : yOff + 16 < 4294967296
  column : xOff ≤ px ∧ px < xOff + 8
  row : yOff ≤ py ∧ py < yOff + 16
  bit : (font.glyph (glyphOffset font chr (py - yOff))).toNat &&&
    (0b10000000 >>> (px - xOff)) > 0

/-- **A character writes the pixels whose bit in its glyph is set.** -/
theorem mem_putChar_write (font : Psf1Font) (color : Nat) (chr : UInt8) {xOff yOff : Nat}
    (hx : xOff < 4294967296) (hy : yOff < 4294967296) (px py c : Nat) (out : List Access) :
    .write px py c ∈ putChar font color chr xOff yOff out ↔
      .write px py c ∈ out ∨ Inks font chr xOff yOff px py ∧ c = color := by
  refine (mem_range_span hy (show 16 < 4294967296 by omega) (fun r out =>
    mem_glyphRow_write font color hx (glyphOffset font chr r) (yOff + r) px py c out) out).trans ?_
  apply or_congr_right
  constructor
  · rintro ⟨bottom, r, hr, right, k, hk, ⟨rfl, rfl, same⟩, bit⟩
    refine ⟨⟨right, bottom, by omega, by omega, ?_⟩, same⟩
    rwa [Nat.add_sub_cancel_left]
  · rintro ⟨ink, same⟩
    obtain ⟨left, atRight⟩ := ink.column
    obtain ⟨top, atBottom⟩ := ink.row
    refine ⟨ink.bottom, py - yOff, by omega, ink.right, px - xOff, by omega, ⟨by omega, by omega,
      same⟩, ?_⟩
    rw [Nat.add_sub_cancel_left]
    exact ink.bit

end KessOS
