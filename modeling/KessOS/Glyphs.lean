import KessOS.Console

/-!
# The glyphs the console reads

The bootloader allocates the glyph buffer, the kernel reads it at the signed
character times the height of a character, sixteen rows each time.

* `text_reads`: every byte read belongs to a character of the text;
* `glyphs_iff`: the reads stay in the buffer exactly for ASCII texts.
-/

namespace KessOS.Canvas

variable (lfb : Framebuffer) (font : Psf1Font)

/-! ## Where reads come from -/

theorem write_reads {c : Canvas} (h : Words c) (color : Nat) {chr : UInt8}
    (drawn : chr ≠ newlineChar) (offset : Int) :
    .read offset ∈ (c.write lfb font color chr).accesses ↔ .read offset ∈ c.accesses ∨
      (c.wrap lfb).y + 16 < 4294967296 ∧ ∃ r : Nat, r < 16 ∧ (c.wrap lfb).x + 8 < 4294967296 ∧
        offset = glyphOffset font chr r := by
  have wrapped := wrap_words lfb h
  have reads := mem_putChar_read font color chr wrapped.x wrapped.y offset (c.wrap lfb).accesses
  rw [wrap_accesses] at reads
  rw [write, if_neg drawn, draw, wrap_accesses]
  exact reads

/-- Every byte read belongs to a character of the text. -/
theorem text_reads (color : Nat) (text : List UInt8) {c : Canvas} (h : Words c) {offset : Int}
    (reads : .read offset ∈
      (text.foldl (fun c chr => c.write lfb font color chr) c).accesses) :
    .read offset ∈ c.accesses ∨ ∃ chr ∈ text, chr ≠ newlineChar ∧ ∃ r : Nat, r < 16 ∧
      offset = glyphOffset font chr r := by
  induction text generalizing c with
  | nil => exact Or.inl reads
  | cons chr rest ih =>
    rcases ih (write_words lfb font h color chr) reads with before | ⟨chr', listed, found⟩
    · by_cases newline : chr = newlineChar
      · rw [write, if_pos newline] at before
        exact Or.inl before
      · rcases (write_reads lfb font h color newline offset).mp before with
          older | ⟨_, r, hr, _, same⟩
        · exact Or.inl older
        · exact Or.inr ⟨chr, List.mem_cons_self, newline, r, hr, same⟩
    · exact Or.inr ⟨chr', List.mem_cons_of_mem chr listed, found⟩

/-- What was read stays in the record. -/
theorem text_reads_keep (color : Nat) (text : List UInt8) {c : Canvas} (h : Words c)
    {offset : Int} (read : .read offset ∈ c.accesses) :
    .read offset ∈ (text.foldl (fun c chr => c.write lfb font color chr) c).accesses := by
  induction text generalizing c with
  | nil => exact read
  | cons chr rest ih =>
    apply ih (write_words lfb font h color chr)
    by_cases newline : chr = newlineChar
    · simpa only [write, newline, ↓reduceIte, Canvas.newline] using read
    · exact (write_reads lfb font h color newline offset).mpr (Or.inl read)

/-! ## Inside the glyph buffer -/

/-- Whatever the screen and the cursor, every glyph byte read for the string
lies in the buffer that `loadFont` allocates for the font. -/
def GlyphsInside (fontHeader : Psf1Header) (str : CString) : Prop :=
  ∀ (lfb : Framebuffer) (font : Psf1Font) (color : Nat) (c : Canvas),
    font.header = fontHeader → c.Words → c.accesses = [] →
      ∀ offset : Int, .read offset ∈ (c.kwrite lfb font str color).accesses →
        0 ≤ offset ∧ offset < glyphBufferSize fontHeader

/-- Every character written, newlines apart, is ASCII, and characters of the
font have a row. -/
def Covered (fontHeader : Psf1Header) (str : CString) : Prop :=
  ∀ chr ∈ str.text, chr ≠ newlineChar → chr.toNat < 128 ∧ 0 < fontHeader.chsize.toNat

theorem glyphBufferSize_ge (fontHeader : Psf1Header) :
    fontHeader.chsize.toNat * 255 ≤ glyphBufferSize fontHeader := by
  unfold glyphBufferSize
  split <;> omega

theorem glyphOffset_inside {chr : UInt8} (ascii : chr.toNat < 128)
    (rows : 0 < font.header.chsize.toNat) {r : Nat} (hr : r < 16) :
    0 ≤ glyphOffset font chr r ∧ glyphOffset font chr r < glyphBufferSize font.header := by
  have room := glyphBufferSize_ge font.header
  have last : chr.toNat * font.header.chsize.toNat ≤ 127 * font.header.chsize.toNat :=
    Nat.mul_le_mul_right _ (by omega)
  rw [glyphOffset, charValue, if_pos ascii]
  norm_cast
  omega

/-- With the first row of a character inside, it is covered. -/
theorem covered_of_first {chr : UInt8} (low : 0 ≤ glyphOffset font chr 0)
    (high : glyphOffset font chr 0 < glyphBufferSize font.header) :
    chr.toNat < 128 ∧ 0 < font.header.chsize.toNat := by
  have small := font.header.chsize.toNat_lt
  have rows : 0 < font.header.chsize.toNat := by
    by_contra none
    have zero : font.header.chsize.toNat = 0 := by omega
    simp only [glyphOffset, glyphBufferSize, zero] at low high
    simp at high
  refine ⟨?_, rows⟩
  by_contra upper
  have byte := chr.toNat_lt
  have below : charValue chr < 0 := by
    rw [charValue, if_neg upper]
    omega
  have negative := Int.mul_neg_of_neg_of_pos below (Int.natCast_pos.mpr rows)
  simp only [glyphOffset] at low
  omega

/-! ## Every character can be drawn somewhere -/

/-- A screen without rows, where every character wraps. -/
def noRows : Framebuffer where
  width := 0
  height := 0
  ppsl := 0
  fits := Nat.le_refl _
  heightWord := by decide
  ppslWord := by decide

/-- On it, moving the cursor right moves all that follows. -/
theorem shift (color : Nat) (text : List UInt8) (a b : Nat) : ∃ a' b', ∀ (v : Nat) (c : Canvas),
    c.x = (v + a) % 4294967296 → c.prevX = (v + b) % 4294967296 →
      (text.foldl (fun c chr => c.write noRows font color chr) c).x = (v + a') % 4294967296 ∧
      (text.foldl (fun c chr => c.write noRows font color chr) c).prevX =
        (v + b') % 4294967296 := by
  induction text generalizing a b with
  | nil => exact ⟨a, b, fun v c hx hp => ⟨hx, hp⟩⟩
  | cons chr rest ih =>
    by_cases newline : chr = newlineChar
    · obtain ⟨a', b', moved⟩ := ih b b
      refine ⟨a', b', fun v c _ hp => moved v _ ?_ ?_⟩
      · simpa only [write, newline, ↓reduceIte, Canvas.newline] using hp
      · simpa only [write, newline, ↓reduceIte, Canvas.newline] using hp
    · obtain ⟨a', b', moved⟩ := ih (a + 8) (b + 300)
      have wraps (c : Canvas) : c.y ≥ noRows.height := Nat.zero_le _
      refine ⟨a', b', fun v c hx hp => moved v _ ?_ ?_⟩
      · simp only [write, newline, ↓reduceIte, wrap, wraps, draw]
        omega
      · simp only [write, newline, ↓reduceIte, wrap, wraps, draw]
        omega

/-- From some cursor the first row of the character is read. -/
theorem read_first (color : Nat) {text : List UInt8} {chr : UInt8} (listed : chr ∈ text)
    (drawn : chr ≠ newlineChar) : ∃ c : Canvas, c.Words ∧ c.accesses = [] ∧
      .read (glyphOffset font chr 0) ∈
        (text.foldl (fun c chr => c.write noRows font color chr) c).accesses := by
  obtain ⟨before, after, rfl⟩ := List.append_of_mem listed
  obtain ⟨a, _, moved⟩ := shift font color before 0 0
  -- the cursor from which the character is drawn at the left edge
  let v := (4294967296 - a % 4294967296) % 4294967296
  let c : Canvas := ⟨v, 0, v, [], []⟩
  have word : v < 4294967296 := Nat.mod_lt _ (by omega)
  have words : c.Words := ⟨word, by show 0 < 4294967296; omega, word⟩
  refine ⟨c, words, rfl, ?_⟩
  have there := (moved v c (Nat.mod_eq_of_lt word).symm (Nat.mod_eq_of_lt word).symm).1
  have blank : Recorded c := ⟨words, fun _ _ _ none => absurd none List.not_mem_nil⟩
  have words' := (foldl_recorded noRows font color before blank).words
  rw [List.foldl_append, List.foldl_cons]
  apply text_reads_keep noRows font color after (write_words noRows font words' color chr)
  generalize before.foldl (fun c chr => c.write noRows font color chr) c = c' at there words' ⊢
  have left : c'.x = 0 := by
    rw [there]
    omega
  have top : c'.wrap noRows = { c' with prevX := (c'.prevX + 300) % 4294967296, y := 10 } :=
    if_pos (Nat.zero_le _)
  refine (write_reads noRows font words' color drawn _).mpr (Or.inr ?_)
  simp only [top, left]
  exact ⟨by omega, 0, by omega, by omega, rfl⟩

theorem GlyphsInside.covered {fontHeader : Psf1Header} {str : CString}
    (h : GlyphsInside fontHeader str) : Covered fontHeader str := by
  intro chr listed drawn
  let font : Psf1Font := ⟨fontHeader, fun _ => 0⟩
  obtain ⟨c, words, fresh, read⟩ := read_first font 0 listed drawn
  rw [← kwrite_eq] at read
  obtain ⟨low, high⟩ := h noRows font 0 c rfl words fresh _ read
  exact covered_of_first font low high

/-- **The glyph reads stay in the buffer exactly for ASCII texts.** -/
theorem glyphs_iff (fontHeader : Psf1Header) (str : CString) :
    GlyphsInside fontHeader str ↔ Covered fontHeader str := by
  constructor
  · exact GlyphsInside.covered
  · rintro covered lfb font color c rfl words fresh offset read
    rw [kwrite_eq] at read
    rcases text_reads lfb font color str.text words read with
      old | ⟨chr, listed, drawn, r, hr, rfl⟩
    · rw [fresh] at old
      cases old
    · obtain ⟨ascii, rows⟩ := covered chr listed drawn
      exact glyphOffset_inside font ascii rows hr

/-- An accented letter. -/
def accent : CString where
  bytes := [0xe9]
  noNul := by decide
  fits := by decide

/-- A letter above 127 is read in front of the buffer of an accepted font. -/
theorem accent_outside :
    fontHeaderBad blankFont.header = false ∧ ¬ GlyphsInside blankFont.header accent := by
  refine ⟨by decide, fun inside => ?_⟩
  have ascii := (inside.covered 0xe9 (List.mem_singleton_self _) (by decide)).1
  revert ascii
  decide

end KessOS.Canvas
