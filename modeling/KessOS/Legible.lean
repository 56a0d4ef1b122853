import KessOS.ClearScreen
import KessOS.Columns
import KessOS.Log

/-!
# Text on the screen

The console draws each character over what the framebuffer holds. Where no two
cells share a pixel, no character disturbs another one.

* `paint_shows`: characters with cells apart, painted one after the other, all
  come out;
* `typed_pixels`: a text with colours paints its characters in memory;
* `text_shows`: after any calls of `kwrite` that fit, a cleared screen shows
  their text;
* `column_shows`: so does any text that fits the first column.
-/

namespace KessOS

/-- A character where it is drawn, and its colour. -/
structure Letter where
  cell : Cell
  color : Nat

namespace Pixels

variable (lfb : Framebuffer) (font : Psf1Font)

/-- The letters one after the other, the first one first. -/
def paint (letters : List Letter) (p : Pixels) : Pixels :=
  letters.foldl (fun p l => putChar lfb font l.color l.cell.chr l.cell.xOff l.cell.yOff p) p

/-- Every letter is there in its colour, on what was there before, and nothing
else has changed. -/
structure Shows (letters : List Letter) (p p' : Pixels) : Prop where
  glyph : ∀ l ∈ letters, ∀ i j, i < 16 → j < 8 →
    p' (pixelAt lfb (l.cell.xOff + j) (l.cell.yOff + i)) =
      if glyphBit font l.cell.chr i j then l.color
      else p (pixelAt lfb (l.cell.xOff + j) (l.cell.yOff + i))
  rest : ∀ px py, px < lfb.ppsl → py < lfb.height → (∀ l ∈ letters, ¬ l.cell.Covers px py) →
    p' (pixelAt lfb px py) = p (pixelAt lfb px py)

/-- A letter the font has, on the screen, in a colour a pixel can have. -/
structure Drawable (l : Letter) : Prop where
  ascii : l.cell.chr.toNat < 128
  right : l.cell.xOff + 8 ≤ lfb.ppsl
  bottom : l.cell.yOff + 16 ≤ lfb.height
  word : l.color < 4294967296

variable {lfb font}

/-- Only the pixels of the screen matter. -/
theorem Shows.congr {letters : List Letter} {p q q' : Pixels} (h : Shows lfb font letters p q)
    (drawable : ∀ l ∈ letters, Drawable lfb l)
    (same : ∀ px py, px < lfb.ppsl → py < lfb.height →
      q' (pixelAt lfb px py) = q (pixelAt lfb px py)) : Shows lfb font letters p q' := by
  constructor
  · intro l listed i j hi hj
    have right := (drawable l listed).right
    have bottom := (drawable l listed).bottom
    rw [same _ _ (by omega) (by omega)]
    exact h.glyph l listed i j hi hj
  · intro px py hx hy outside
    rw [same px py hx hy]
    exact h.rest px py hx hy outside

theorem inked_cell {chr : UInt8} {xOff yOff i j : Nat} (hi : i < 16) (hj : j < 8) :
    Inked font chr xOff yOff (xOff + j) (yOff + i) ↔ glyphBit font chr i j = true := by
  constructor
  · rintro ⟨i', j', _, _, column, row, bit⟩
    obtain rfl : i' = i := by omega
    obtain rfl : j' = j := by omega
    exact bit
  · intro bit
    exact ⟨i, j, hi, hj, rfl, rfl, bit⟩

/-- One letter in its cell, and elsewhere. -/
theorem putChar_shows {l : Letter} (h : Drawable lfb l) (p : Pixels) :
    Shows lfb font [l] p (putChar lfb font l.color l.cell.chr l.cell.xOff l.cell.yOff p) := by
  have pixel (px py : Nat) (hx : px < lfb.ppsl) :=
    putChar_pixel font l.color h.ascii h.right h.bottom p py hx
  have right := h.right
  constructor
  · intro l' listed i j hi hj
    obtain rfl := List.mem_singleton.mp listed
    obtain ⟨painted, kept⟩ := pixel (l'.cell.xOff + j) (l'.cell.yOff + i) (by omega)
    rw [inked_cell hi hj] at painted kept
    split
    · next bit => exact painted bit
    · next blank => exact kept blank
  · intro px py hx _ outside
    apply (pixel px py hx).2
    rintro ⟨i, j, hi, hj, rfl, rfl, _⟩
    exact outside l List.mem_cons_self ⟨⟨by omega, by omega⟩, by omega, by omega⟩

theorem Drawable.covers {l : Letter} {i j : Nat} (hi : i < 16) (hj : j < 8) :
    l.cell.Covers (l.cell.xOff + j) (l.cell.yOff + i) :=
  ⟨⟨by omega, by omega⟩, by omega, by omega⟩

/-- **Letters that share no pixel all come out.** -/
theorem paint_shows {letters : List Letter} (drawable : ∀ l ∈ letters, Drawable lfb l)
    (apart : letters.Pairwise fun a b => a.cell.Apart b.cell) (p : Pixels) :
    Shows lfb font letters p (paint lfb font letters p) := by
  induction letters generalizing p with
  | nil => exact ⟨fun l none => absurd none List.not_mem_nil, fun _ _ _ _ _ => rfl⟩
  | cons l letters ih =>
    obtain ⟨away, apart⟩ := List.pairwise_cons.mp apart
    have first := @putChar_shows lfb font l (drawable l List.mem_cons_self) p
    have later := ih (fun l' listed => drawable l' (List.mem_cons_of_mem l listed)) apart
      (putChar lfb font l.color l.cell.chr l.cell.xOff l.cell.yOff p)
    constructor
    · intro l' listed i j hi hj
      have here := drawable l' listed
      have right := here.right
      have bottom := here.bottom
      rcases List.mem_cons.mp listed with rfl | inRest
      · -- the letters behind it leave its cell alone
        refine (later.rest _ _ (by omega) (by omega) fun l'' inRest both => ?_).trans
          (first.glyph l' (List.mem_singleton_self l') i j hi hj)
        exact away l'' inRest _ _ ⟨Drawable.covers hi hj, both⟩
      · have before := first.rest (l'.cell.xOff + j) (l'.cell.yOff + i) (by omega) (by omega)
          fun l'' single => by
            obtain rfl := List.mem_singleton.mp single
            exact fun both => away l' inRest _ _ ⟨both, Drawable.covers hi hj⟩
        refine (later.glyph l' inRest i j hi hj).trans ?_
        rw [before]
    · intro px py hx hy outside
      refine (later.rest px py hx hy fun l' listed => ?_).trans (first.rest px py hx hy ?_)
      · exact outside l' (List.mem_cons_of_mem l listed)
      · intro l' single
        obtain rfl := List.mem_singleton.mp single
        exact outside l' List.mem_cons_self

end Pixels

/-! ## What a character adds -/

theorem mem_foldl_append {β γ : Type} (g : γ → List β → List β)
    (adds : ∀ k out, g k out = g k [] ++ out) (ks : List γ) (out : List β) :
    ks.foldl (fun out k => g k out) out = ks.foldl (fun out k => g k out) [] ++ out := by
  induction ks generalizing out with
  | nil => rfl
  | cons k ks ih =>
    rw [List.foldl_cons, List.foldl_cons, ih (g k out), ih (g k []), adds k out,
      List.append_assoc]

theorem putChar_append (font : Psf1Font) (color : Nat) (chr : UInt8) (xOff yOff : Nat)
    (out : List Access) :
    putChar font color chr xOff yOff out = putChar font color chr xOff yOff [] ++ out := by
  have pixel (fontPtr : Int) (y x : Nat) (out : List Access) :
      glyphPixel font color xOff fontPtr y x out =
        glyphPixel font color xOff fontPtr y x [] ++ out := by
    unfold glyphPixel
    dsimp only
    split <;> rfl
  have row (fontPtr : Int) (y : Nat) (out : List Access) :
      glyphRow font color xOff fontPtr y out = glyphRow font color xOff fontPtr y [] ++ out :=
    mem_foldl_append (fun k out => glyphPixel font color xOff fontPtr y (xOff + k) out)
      (fun k out => pixel fontPtr y (xOff + k) out) _ out
  exact mem_foldl_append
    (fun r out => glyphRow font color xOff (glyphOffset font chr r) (yOff + r) out)
    (fun r out => row (glyphOffset font chr r) (yOff + r) out) _ out

theorem writeAll_append {ι α : Type} [DecidableEq ι] (p : ι → α) (later earlier : List (ι × α)) :
    writeAll p (later ++ earlier) = writeAll (writeAll p earlier) later :=
  List.foldr_append

theorem pixelWrites_append (lfb : Framebuffer) (later earlier : List Access) :
    pixelWrites lfb (later ++ earlier) = pixelWrites lfb later ++ pixelWrites lfb earlier :=
  List.filterMap_append

/-! ## Typed text -/

/-- Characters with their colours. -/
abbrev Typed := List (UInt8 × Nat)

def colored (color : Nat) (text : List UInt8) : Typed := text.map fun chr => (chr, color)

theorem colored_append (color : Nat) (a b : List UInt8) :
    colored color (a ++ b) = colored color a ++ colored color b := List.map_append

theorem fst_colored (color : Nat) (text : List UInt8) :
    (colored color text).map Prod.fst = text := by
  rw [colored, List.map_map]
  exact List.map_id text

theorem mem_colored {color : Nat} {text : List UInt8} {k : UInt8 × Nat} :
    k ∈ colored color text ↔ k.1 ∈ text ∧ k.2 = color := by
  obtain ⟨chr, hue⟩ := k
  simp [colored, eq_comm]

namespace Canvas

variable (lfb : Framebuffer) (font : Psf1Font)

/-- The text is written character by character. -/
def typed (c : Canvas) (text : Typed) : Canvas :=
  text.foldl (fun c k => c.write lfb font k.2 k.1) c

theorem typed_append (c : Canvas) (a b : Typed) :
    c.typed lfb font (a ++ b) = (c.typed lfb font a).typed lfb font b := List.foldl_append

theorem typed_colored (c : Canvas) (color : Nat) (text : List UInt8) :
    c.typed lfb font (colored color text) =
      text.foldl (fun c chr => c.write lfb font color chr) c := List.foldl_map

theorem kwrite_typed (c : Canvas) (str : CString) (color : Nat) :
    c.kwrite lfb font str color = c.typed lfb font (colored color str.text) :=
  (kwrite_eq lfb font c str color).trans (typed_colored lfb font c color str.text).symm

/-- What some calls of `kwrite` type. -/
def callsText (calls : List (CString × Nat)) : Typed :=
  calls.flatMap fun call => colored call.2 call.1.text

theorem writeCalls_typed (c : Canvas) (calls : List (CString × Nat)) :
    c.writeCalls lfb font calls = c.typed lfb font (callsText calls) := by
  induction calls generalizing c with
  | nil => rfl
  | cons call calls ih =>
    rw [writeCalls, List.foldl_cons, ← writeCalls, ih, kwrite_typed, callsText, callsText,
      List.flatMap_cons, typed_append]

theorem typed_words (text : Typed) {c : Canvas} (h : Words c) : Words (c.typed lfb font text) := by
  induction text generalizing c with
  | nil => exact h
  | cons k rest ih => exact ih (write_words lfb font h k.2 k.1)

/-! ### The letters of a text -/

/-- The letters a text draws from a canvas on. -/
def typedLetters : Canvas → Typed → List Letter
  | _, [] => []
  | c, (chr, color) :: rest =>
    if chr = newlineChar then typedLetters c.newline rest
    else ⟨⟨chr, (c.wrap lfb).x, (c.wrap lfb).y⟩, color⟩ ::
      typedLetters (c.write lfb font color chr) rest

/-- They are the cells the console records. -/
theorem typed_cells (text : Typed) (c : Canvas) : (c.typed lfb font text).cells =
    ((typedLetters lfb font c text).map Letter.cell).reverse ++ c.cells := by
  induction text generalizing c with
  | nil => rfl
  | cons k rest ih =>
    obtain ⟨chr, color⟩ := k
    rw [typed, List.foldl_cons, ← typed, ih, typedLetters]
    by_cases newline : chr = newlineChar
    · rw [if_pos newline, write, if_pos newline]
      rfl
    · rw [if_neg newline, cells_write lfb font color c newline]
      simp

theorem typedLetters_append (a b : Typed) (c : Canvas) : typedLetters lfb font c (a ++ b) =
    typedLetters lfb font c a ++ typedLetters lfb font (c.typed lfb font a) b := by
  induction a generalizing c with
  | nil => rfl
  | cons k rest ih =>
    obtain ⟨chr, color⟩ := k
    rw [List.cons_append, typedLetters, typedLetters, typed, List.foldl_cons, ← typed]
    by_cases newline : chr = newlineChar
    · rw [if_pos newline, if_pos newline, write, if_pos newline, ih]
    · rw [if_neg newline, if_neg newline, ih, List.cons_append]

theorem typedLetters_newline (color : Nat) (rest : List UInt8) (c : Canvas) :
    typedLetters lfb font c (colored color (newlineChar :: rest)) =
      typedLetters lfb font c.newline (colored color rest) := by
  rw [colored, List.map_cons, typedLetters, if_pos rfl, colored]

/-- A line is a row of cells. -/
theorem typedLetters_line (color : Nat) {line : List UInt8} (single : newlineChar ∉ line)
    {c : Canvas} (above : c.y < lfb.height) (room : c.x + 8 * line.length < 4294967296) :
    typedLetters lfb font c (colored color line) =
      line.mapIdx fun k chr => ⟨⟨chr, c.x + 8 * k, c.y⟩, color⟩ := by
  induction line generalizing c with
  | nil => rfl
  | cons chr rest ih =>
    obtain ⟨char, later⟩ := not_or.mp (List.mem_cons.not.mp single)
    rw [List.length_cons] at room
    have stays : c.wrap lfb = c := if_neg (by omega)
    have step : c.write lfb font color chr = c.draw font color chr := by
      rw [write, if_neg (Ne.symm char), stays]
    have next : (c.x + 8) % 4294967296 = c.x + 8 := Nat.mod_eq_of_lt (by omega)
    have after := ih (c := c.draw font color chr) later above (by
      show (c.x + 8) % 4294967296 + 8 * rest.length < 4294967296
      omega)
    rw [colored, List.map_cons, ← colored, typedLetters, if_neg (Ne.symm char), stays, step, after,
      List.mapIdx_cons]
    simp only [draw, next, Nat.mul_zero, Nat.add_zero, Nat.mul_succ, Nat.add_assoc,
      Nat.add_comm 8]

/-- A line leaves the cursor on its row. -/
theorem typed_line (color : Nat) {line : List UInt8} (single : newlineChar ∉ line) {c : Canvas}
    (above : c.y < lfb.height) : (c.typed lfb font (colored color line)).y = c.y ∧
      (c.typed lfb font (colored color line)).prevX = c.prevX := by
  induction line generalizing c with
  | nil => exact ⟨rfl, rfl⟩
  | cons chr rest ih =>
    obtain ⟨char, later⟩ := not_or.mp (List.mem_cons.not.mp single)
    have stays : c.wrap lfb = c := if_neg (by omega)
    rw [colored, List.map_cons, ← colored, typed, List.foldl_cons, ← typed, write,
      if_neg (Ne.symm char), stays]
    exact ih (c := c.draw font color chr) later above

theorem typedLetters_mem (text : Typed) (c : Canvas) {l : Letter}
    (listed : l ∈ typedLetters lfb font c text) : (l.cell.chr, l.color) ∈ text := by
  induction text generalizing c with
  | nil => cases listed
  | cons k rest ih =>
    obtain ⟨chr, color⟩ := k
    rw [typedLetters] at listed
    split at listed
    · exact List.mem_cons_of_mem _ (ih _ listed)
    · rcases List.mem_cons.mp listed with rfl | later
      · exact List.mem_cons_self
      · exact List.mem_cons_of_mem _ (ih _ later)

theorem write_accesses (color : Nat) (c : Canvas) {chr : UInt8} (drawn : chr ≠ newlineChar) :
    (c.write lfb font color chr).accesses =
      putChar font color chr (c.wrap lfb).x (c.wrap lfb).y c.accesses := by
  rw [write, if_neg drawn, draw, wrap_accesses]

/-- The framebuffer the accesses of a canvas make. -/
def pixels (c : Canvas) (p : Pixels) : Pixels := writeAll p (pixelWrites lfb c.accesses)

/-- **A text paints its letters**, one after the other. -/
theorem typed_paints (text : Typed) (c : Canvas) (p : Pixels) :
    (c.typed lfb font text).pixels lfb p =
      Pixels.paint lfb font (typedLetters lfb font c text) (c.pixels lfb p) := by
  induction text generalizing c with
  | nil => rfl
  | cons k rest ih =>
    obtain ⟨chr, color⟩ := k
    rw [typed, List.foldl_cons, ← typed, ih, typedLetters]
    by_cases newline : chr = newlineChar
    · rw [if_pos newline, write, if_pos newline]
      rfl
    · have painted : (c.write lfb font color chr).pixels lfb p =
          Pixels.putChar lfb font color chr (c.wrap lfb).x (c.wrap lfb).y (c.pixels lfb p) := by
        rw [pixels, write_accesses lfb font color c newline, putChar_append, pixelWrites_append,
          writeAll_append]
        rfl
      rw [if_neg newline, painted]
      rfl

/-- Each access belongs to a letter. -/
theorem typed_access {text : Typed} {c : Canvas} (h : Words c) {a : Access}
    (listed : a ∈ (c.typed lfb font text).accesses) :
    a ∈ c.accesses ∨ ∃ l ∈ typedLetters lfb font c text,
      (l.cell.xOff < 4294967296 ∧ l.cell.yOff < 4294967296) ∧
      a ∈ putChar font l.color l.cell.chr l.cell.xOff l.cell.yOff [] := by
  induction text generalizing c with
  | nil => exact Or.inl listed
  | cons k rest ih =>
    obtain ⟨chr, color⟩ := k
    have wrapped := wrap_words lfb h
    rw [typedLetters]
    rcases ih (write_words lfb font h color chr) listed with before | ⟨l, typed, belongs⟩
    · by_cases newline : chr = newlineChar
      · rw [write, if_pos newline] at before
        exact Or.inl before
      · rw [write_accesses lfb font color c newline, putChar_append, List.mem_append] at before
        rw [if_neg newline]
        rcases before with here | older
        · exact Or.inr ⟨_, List.mem_cons_self, ⟨wrapped.x, wrapped.y⟩, here⟩
        · exact Or.inl older
    · refine Or.inr ⟨l, ?_, belongs⟩
      by_cases newline : chr = newlineChar
      · rw [write, if_pos newline] at typed
        rwa [if_pos newline]
      · rw [if_neg newline]
        exact List.mem_cons_of_mem _ typed

/-- Each pixel written belongs to a letter and has its colour. -/
theorem typed_writes {text : Typed} {c : Canvas} (h : Words c) {px py hue : Nat}
    (written : .write px py hue ∈ (c.typed lfb font text).accesses) :
    .write px py hue ∈ c.accesses ∨
      ∃ l ∈ typedLetters lfb font c text, l.color = hue ∧ l.cell.Covers px py := by
  rcases typed_access lfb font h written with older | ⟨l, typed, ⟨x, y⟩, here⟩
  · exact Or.inl older
  · rcases (mem_putChar_write font l.color l.cell.chr x y px py hue []).mp here with none | ⟨ink, same⟩
    · cases none
    · exact Or.inr ⟨l, typed, same.symm, ink.column, ink.row⟩

/-! ### Only the cursor matters -/

theorem write_cursor {c c' : Canvas} (same : c.cursor = c'.cursor) (color : Nat) (chr : UInt8) :
    (c.write lfb font color chr).cursor = (c'.write lfb font color chr).cursor := by
  obtain ⟨x, y, prevX⟩ := Cursor.mk.inj same
  unfold write
  split
  · simp only [newline, cursor, y, prevX]
  · unfold wrap
    rw [y]
    split <;> simp only [draw, cursor, x, y, prevX]

theorem typed_cursor (text : Typed) {c c' : Canvas} (same : c.cursor = c'.cursor) :
    (c.typed lfb font text).cursor = (c'.typed lfb font text).cursor := by
  induction text generalizing c c' with
  | nil => exact same
  | cons k rest ih => exact ih (write_cursor lfb font same k.2 k.1)

/-- What a text adds to the accesses depends on the cursor alone. -/
theorem typed_accesses (text : Typed) {c c' : Canvas} (same : c.cursor = c'.cursor)
    (fresh : c'.accesses = []) : (c.typed lfb font text).accesses =
      (c'.typed lfb font text).accesses ++ c.accesses := by
  suffices added : ∃ out, ∀ d : Canvas, d.cursor = c'.cursor →
      (d.typed lfb font text).accesses = out ++ d.accesses by
    obtain ⟨out, adds⟩ := added
    rw [adds c same, adds c' rfl, fresh, List.append_nil]
  clear same fresh c
  induction text generalizing c' with
  | nil => exact ⟨[], fun d _ => rfl⟩
  | cons k rest ih =>
    obtain ⟨chr, color⟩ := k
    obtain ⟨out, adds⟩ := @ih (c'.write lfb font color chr)
    by_cases newline : chr = newlineChar
    · refine ⟨out, fun d here => (adds _ (write_cursor lfb font here color chr)).trans ?_⟩
      rw [write, if_pos newline]
      rfl
    · refine ⟨out ++ putChar font color chr (c'.wrap lfb).x (c'.wrap lfb).y [], fun d here =>
        (adds _ (write_cursor lfb font here color chr)).trans ?_⟩
      have place : (d.wrap lfb).x = (c'.wrap lfb).x ∧ (d.wrap lfb).y = (c'.wrap lfb).y := by
        obtain ⟨x, y, _⟩ := Cursor.mk.inj here
        unfold wrap
        rw [y]
        split <;> simp only [x, y, and_self]
      rw [write_accesses lfb font color d newline, putChar_append, place.1, place.2,
        List.append_assoc]

end Canvas

/-! ## In memory -/

namespace Screen

open Pixels (paint Drawable Shows)

variable (lfb : Framebuffer) (font : Psf1Font) (base : Nat)

/-- The text is written to the framebuffer in memory. -/
def typed (s : Screen) (text : Typed) : Screen where
  cursor := ((start s.cursor).typed lfb font text).cursor
  mem := storePixels base s.mem
    (pixelWrites lfb ((start s.cursor).typed lfb font text).accesses)

theorem typed_append (s : Screen) (a b : Typed) :
    s.typed lfb font base (a ++ b) = (s.typed lfb font base a).typed lfb font base b := by
  have same : ((start s.cursor).typed lfb font a).cursor =
      (start (s.typed lfb font base a).cursor).cursor := rfl
  have cursors := Canvas.typed_cursor lfb font b same
  have accesses := Canvas.typed_accesses lfb font b same rfl
  rw [typed, Canvas.typed_append, cursors, accesses, pixelWrites_append, storePixels,
    List.foldr_append]
  rfl

theorem kwrite_typed (s : Screen) (call : CString × Nat) :
    s.kwrite lfb font base call = s.typed lfb font base (colored call.2 call.1.text) := by
  rw [kwrite, drawn, Canvas.kwrite_typed]
  rfl

theorem run_typed (s : Screen) (calls : List (CString × Nat)) :
    s.run lfb font base calls = s.typed lfb font base (Canvas.callsText calls) := by
  induction calls generalizing s with
  | nil => rfl
  | cons call calls ih =>
    rw [run, List.foldl_cons, ← run, ih, kwrite_typed, ← typed_append]
    rfl

section
variable {lfb font base} (fits : base + 4 * (lfb.height * lfb.ppsl) ≤ 18446744073709551616)
  {s : Screen} (words : (start s.cursor).Words) {text : Typed}
  (drawable : ∀ l ∈ Canvas.typedLetters lfb font (start s.cursor) text, Drawable lfb l)
include words drawable

/-- Letters on the screen are stored in the framebuffer. -/
theorem typed_range {w : Int × Nat}
    (listed : w ∈ pixelWrites lfb ((start s.cursor).typed lfb font text).accesses) :
    (0 ≤ w.1 ∧ w.1 < (lfb.height * lfb.ppsl : Nat)) ∧ w.2 < 4294967296 := by
  obtain ⟨px, py, written, index⟩ := mem_pixelWrites.mp listed
  rcases Canvas.typed_writes lfb font words written with none | ⟨l, typed, hue, covers⟩
  · cases none
  · obtain ⟨⟨_, right⟩, _, bottom⟩ := covers
    have edge := (drawable l typed).right
    have foot := (drawable l typed).bottom
    have inside : px + py * lfb.ppsl < lfb.height * lfb.ppsl :=
      pixelAt_inside (by omega) (by omega)
    refine ⟨?_, hue ▸ (drawable l typed).word⟩
    rw [← index]
    unfold pixelAt
    omega

include fits

/-- **A text paints its letters** in the framebuffer. -/
theorem typed_pixels {i : Int} (lo : 0 ≤ i) (hi : i < (lfb.height * lfb.ppsl : Nat)) :
    pixelsOf base (s.typed lfb font base text).mem i =
      paint lfb font (Canvas.typedLetters lfb font (start s.cursor) text)
        (pixelsOf base s.mem) i := by
  have writes {w : Int × Nat}
      (listed : w ∈ pixelWrites lfb ((start s.cursor).typed lfb font text).accesses) :=
    typed_range words drawable listed
  have whole : (pixelWrites lfb ((start s.cursor).typed lfb font text).accesses).map stored =
      pixelWrites lfb ((start s.cursor).typed lfb font text).accesses := by
    have same : ∀ w ∈ pixelWrites lfb ((start s.cursor).typed lfb font text).accesses,
        stored w = id w := fun w listed => by
      rw [stored, Nat.mod_eq_of_lt (writes listed).2, id]
    rw [List.map_congr_left same, List.map_id]
  have painted := Canvas.typed_paints lfb font text (start s.cursor) (pixelsOf base s.mem)
  show pixelsOf base (storePixels base s.mem _) i = _
  rw [storePixels_pixels fits _ (fun w listed => (writes listed).1) lo hi, whole]
  exact congrFun painted i

/-- Letters that share no pixel are shown on what was there. -/
theorem typed_shows (apart : (Canvas.typedLetters lfb font (start s.cursor) text).Pairwise
      fun a b => a.cell.Apart b.cell) :
    Shows lfb font (Canvas.typedLetters lfb font (start s.cursor) text) (pixelsOf base s.mem)
      (pixelsOf base (s.typed lfb font base text).mem) := by
  have painted := @Pixels.paint_shows lfb font _ drawable apart (pixelsOf base s.mem)
  apply painted.congr drawable
  intro px py hx hy
  have inside := pixelAt_inside hx hy
  apply typed_pixels fits words drawable
  · unfold pixelAt
    omega
  · unfold pixelAt
    omega

end

/-- The background of a cleared screen is of one colour. -/
theorem Shows.cleared {lfb : Framebuffer} {font : Psf1Font} {base : Nat}
    (narrow : lfb.ppsl < 1073741824) (short : lfb.height < 2147483648)
    (fits : base + 4 * (lfb.height * lfb.ppsl) < 18446744073709551616) {s : Screen}
    {background : Nat} (word : background < 4294967296) {letters : List Letter}
    (drawable : ∀ l ∈ letters, Drawable lfb l) {p : Pixels}
    (h : Shows lfb font letters (pixelsOf base (s.clearScreen lfb base background).mem) p) :
    Shows lfb font letters (fun _ => background) p := by
  have cleared {px py : Nat} (hx : px < lfb.ppsl) (hy : py < lfb.height) :
      pixelsOf base (s.clearScreen lfb base background).mem (pixelAt lfb px py) = background := by
    have inside := pixelAt_inside hx hy
    apply clearScreen_pixel narrow short fits word
    · unfold pixelAt
      omega
    · unfold pixelAt
      omega
  constructor
  · intro l listed i j hi hj
    have right := (drawable l listed).right
    have bottom := (drawable l listed).bottom
    have glyph := h.glyph l listed i j hi hj
    rwa [cleared (by omega) (by omega)] at glyph
  · intro px py hx hy outside
    exact (h.rest px py hx hy outside).trans (cleared hx hy)

/-- The canvas of a cleared screen. -/
def home : Canvas := start ⟨0, 55, 0⟩

theorem home_words : home.Words :=
  ⟨show 0 < 4294967296 by omega, show 55 < 4294967296 by omega, show 0 < 4294967296 by omega⟩

theorem home_layout (lfb : Framebuffer) : Canvas.Layout lfb home :=
  ⟨List.Pairwise.nil, fun _ none => absurd none List.not_mem_nil,
    fun _ none => absurd none List.not_mem_nil, Or.inr ⟨show 30 ≤ 55 by omega, Nat.le_refl _⟩,
    fun _ => rfl⟩

/-- Cells of a layout are those of letters that share no pixel. -/
theorem letters_apart {text : Typed}
    (layout : Canvas.Layout lfb (home.typed lfb font text)) :
    (Canvas.typedLetters lfb font home text).Pairwise fun a b => a.cell.Apart b.cell := by
  have disjoint := layout.apart
  rw [Canvas.typed_cells, show home.cells = [] from rfl, List.append_nil, List.pairwise_reverse,
    List.pairwise_map] at disjoint
  exact disjoint.imp fun away px py both => away px py both.symm

theorem letters_drawable {text : Typed}
    (plain : ∀ k ∈ text, k.1.toNat < 128 ∧ k.2 < 4294967296)
    (onScreen : ∀ cell ∈ (home.typed lfb font text).cells, cell.OnScreen lfb) :
    ∀ l ∈ Canvas.typedLetters lfb font home text, Drawable lfb l := by
  intro l listed
  have recorded : l.cell ∈ (home.typed lfb font text).cells := by
    rw [Canvas.typed_cells]
    exact List.mem_append_left _ (List.mem_reverse.mpr (List.mem_map_of_mem listed))
  have edges := (Canvas.onScreen_iff lfb l.cell).mp (onScreen l.cell recorded)
  have wide := lfb.fits
  obtain ⟨ascii, word⟩ := plain _ (Canvas.typedLetters_mem lfb font text _ listed)
  exact ⟨ascii, by omega, edges.2, word⟩

/-- **A cleared screen shows the text of any calls** that stay on it, while no
line runs into a column that is begun later. -/
theorem text_shows (tall : 100 ≤ lfb.height) (narrow : lfb.ppsl < 1073741824)
    (short : lfb.height < 2147483648)
    (fits : base + 4 * (lfb.height * lfb.ppsl) < 18446744073709551616) (s : Screen)
    {background : Nat} (word : background < 4294967296) {calls : List (CString × Nat)}
    (colors : ∀ call ∈ calls, call.2 < 4294967296)
    (ascii : ∀ call ∈ calls, ∀ chr ∈ call.1.text, chr.toNat < 128)
    (clear : Canvas.CallsClear lfb font home calls)
    (onScreen : ∀ cell ∈ (home.writeCalls lfb font calls).cells, cell.OnScreen lfb) :
    Shows lfb font (Canvas.typedLetters lfb font home (Canvas.callsText calls))
      (fun _ => background)
      (pixelsOf base (run lfb font base (s.clearScreen lfb base background) calls).mem) := by
  have chars : ∀ k ∈ Canvas.callsText calls, k.1.toNat < 128 ∧ k.2 < 4294967296 := by
    intro k listed
    obtain ⟨call, called, inside⟩ := List.mem_flatMap.mp listed
    obtain ⟨char, color⟩ := mem_colored.mp inside
    exact ⟨ascii call called k.1 char, color ▸ colors call called⟩
  have layout := Canvas.calls_layout lfb font tall calls (home_layout lfb) clear onScreen
  rw [Canvas.writeCalls_typed] at layout onScreen
  have drawable := letters_drawable lfb font chars onScreen
  rw [run_typed]
  exact Shows.cleared narrow short fits word drawable
    (typed_shows (s := s.clearScreen lfb base background) (Nat.le_of_lt fits) home_words drawable
      (letters_apart lfb font layout))

/-- Two lines on a VGA screen. -/
theorem text_shows_lines : Shows vga Canvas.blankFont
    (Canvas.typedLetters vga Canvas.blankFont home
      (Canvas.callsText [(.literal "Hi\nyou", 0x00FF00)])) (fun _ => 0)
    (pixelsOf 0xC0000000 (run vga Canvas.blankFont 0xC0000000
      (Screen.clearScreen vga 0xC0000000 0 ⟨canvas.cursor, fun _ => 0⟩)
      [(.literal "Hi\nyou", 0x00FF00)]).mem) := by
  have text : (CString.literal "Hi\nyou").text = [0x48, 0x69, 0x0a, 0x79, 0x6f, 0x75] := by decide
  apply text_shows vga Canvas.blankFont 0xC0000000 (by decide) (by decide) (by decide) (by decide)
  · decide
  · simp
  · simp [text]
  · refine ⟨?_, trivial⟩
    rw [text]
    simp [Canvas.TextClear, Canvas.Clear, Canvas.write, Canvas.wrap, Canvas.draw, Canvas.newline,
      Canvas.newlineChar, home, start, vga]
  · rw [Canvas.writeCalls, List.foldl_cons, List.foldl_nil, Canvas.kwrite_eq, text]
    simp only [Canvas.onScreen_iff]
    decide

/-! ## The first column -/

/-- The lines end left of the edge, the first one beginning at `x`. -/
def Narrow (edge : Nat) : Nat → List UInt8 → Prop
  | _, [] => True
  | x, chr :: rest =>
    if chr = Canvas.newlineChar then Narrow edge 0 rest
    else x + 8 ≤ edge ∧ Narrow edge (x + 8) rest

def Narrow.decide (edge : Nat) : (x : Nat) → (text : List UInt8) → Decidable (Narrow edge x text)
  | _, [] => isTrue trivial
  | x, chr :: rest =>
    haveI := Narrow.decide edge 0 rest
    haveI := Narrow.decide edge (x + 8) rest
    inferInstanceAs (Decidable (if chr = Canvas.newlineChar then Narrow edge 0 rest
      else x + 8 ≤ edge ∧ Narrow edge (x + 8) rest))

instance (edge x : Nat) (text : List UInt8) : Decidable (Narrow edge x text) :=
  Narrow.decide edge x text

/-- Where the last line ends. -/
def column (x : Nat) (text : List UInt8) : Nat :=
  text.foldl (fun x chr => if chr = Canvas.newlineChar then 0 else x + 8) x

def newlines (text : List UInt8) : Nat := text.count Canvas.newlineChar

theorem narrow_append {edge x : Nat} {a b : List UInt8} :
    Narrow edge x (a ++ b) ↔ Narrow edge x a ∧ Narrow edge (column x a) b := by
  induction a generalizing x with
  | nil => exact (and_iff_right trivial).symm
  | cons chr rest ih =>
    rw [List.cons_append, Narrow, Narrow, column, List.foldl_cons, ← column]
    split
    · exact ih
    · rw [ih, and_assoc]

theorem column_append (x : Nat) (a b : List UInt8) :
    column x (a ++ b) = column (column x a) b := List.foldl_append

/-- A part of a line. -/
theorem narrow_part {edge x : Nat} {part : List UInt8} (line : Canvas.newlineChar ∉ part)
    (short : x + 8 * part.length ≤ edge) :
    Narrow edge x part ∧ column x part = x + 8 * part.length := by
  induction part generalizing x with
  | nil => exact ⟨trivial, rfl⟩
  | cons chr rest ih =>
    obtain ⟨char, later⟩ := not_or.mp (List.mem_cons.not.mp line)
    rw [List.length_cons] at short ⊢
    obtain ⟨narrow, stop⟩ := ih (x := x + 8) later (by omega)
    rw [Narrow, column, List.foldl_cons, ← column, if_neg (Ne.symm char), if_neg (Ne.symm char)]
    exact ⟨⟨by omega, narrow⟩, by omega⟩

theorem Narrow.mono {edge edge' : Nat} (le : edge ≤ edge') {x : Nat} {text : List UInt8}
    (h : Narrow edge x text) : Narrow edge' x text := by
  induction text generalizing x with
  | nil => trivial
  | cons chr rest ih =>
    rw [Narrow] at h ⊢
    split at h
    · next newline =>
      rw [if_pos newline]
      exact ih h
    · next char =>
      rw [if_neg char]
      exact ⟨Nat.le_trans h.1 le, ih h.2⟩

variable {lfb}

/-- Text that never reaches the bottom keeps the layout. -/
theorem column_layout (tall : 100 ≤ lfb.height) {text : Typed} {c : Canvas}
    (h : Canvas.Layout lfb c) (kept : ∀ cell ∈ c.cells, cell.OnScreen lfb) (left : c.prevX = 0)
    (narrow : Narrow lfb.width c.x (text.map Prod.fst))
    (room : c.y + 20 * newlines (text.map Prod.fst) + 16 ≤ lfb.height) :
    Canvas.Layout lfb (c.typed lfb font text) ∧
      ∀ cell ∈ (c.typed lfb font text).cells, cell.OnScreen lfb := by
  have word := lfb.heightWord
  have wide := lfb.fits
  have ppslWord := lfb.ppslWord
  induction text generalizing c with
  | nil => exact ⟨h, kept⟩
  | cons k rest ih =>
    obtain ⟨chr, color⟩ := k
    simp only [List.map_cons] at narrow room
    rw [Narrow] at narrow
    by_cases newline : chr = Canvas.newlineChar
    · have count : newlines (chr :: rest.map Prod.fst) = newlines (rest.map Prod.fst) + 1 := by
        rw [newline, newlines, newlines, List.count_cons_self]
      have next : (c.y + 20) % 4294967296 = c.y + 20 := Nat.mod_eq_of_lt (by omega)
      rw [if_pos newline] at narrow
      rw [Canvas.typed, List.foldl_cons, ← Canvas.typed, Canvas.write, if_pos newline]
      refine ih (Canvas.newline_layout h (by omega)) kept left ?_ ?_
      · show Narrow lfb.width c.prevX (rest.map Prod.fst)
        rwa [left]
      · show (c.y + 20) % 4294967296 + 20 * newlines (rest.map Prod.fst) + 16 ≤ lfb.height
        omega
    · have count : newlines (chr :: rest.map Prod.fst) = newlines (rest.map Prod.fst) :=
        List.count_cons_of_ne newline
      rw [if_neg newline] at narrow
      obtain ⟨fits, narrow⟩ := narrow
      have above : ¬ c.y ≥ lfb.height := by omega
      have same : c.wrap lfb = c := if_neg above
      have onScreen : ∀ cell ∈ (c.write lfb font color chr).cells, cell.OnScreen lfb := by
        rw [Canvas.cells_write lfb font color c newline, same]
        intro cell listed
        rcases List.mem_cons.mp listed with rfl | earlier
        · exact (Canvas.onScreen_iff lfb _).mpr ⟨fits, by dsimp only; omega⟩
        · exact kept cell earlier
      have clear : Canvas.Clear lfb c chr := by
        rw [Canvas.Clear, if_neg newline]
        intro below
        omega
      have layout := Canvas.write_layout font tall h color clear onScreen
      have step : c.write lfb font color chr = c.draw font color chr := by
        rw [Canvas.write, if_neg newline, same]
      rw [Canvas.typed, List.foldl_cons, ← Canvas.typed]
      refine ih layout onScreen ?_ ?_ ?_
      · rw [step]
        exact left
      · rw [step]
        show Narrow lfb.width ((c.x + 8) % 4294967296) (rest.map Prod.fst)
        rwa [Nat.mod_eq_of_lt (by omega)]
      · rw [step]
        show c.y + 20 * newlines (rest.map Prod.fst) + 16 ≤ lfb.height
        omega

theorem column_drawable (tall : 100 ≤ lfb.height) {text : Typed}
    (plain : ∀ k ∈ text, k.1.toNat < 128 ∧ k.2 < 4294967296)
    (narrow : Narrow lfb.width 0 (text.map Prod.fst))
    (room : 55 + 20 * newlines (text.map Prod.fst) + 16 ≤ lfb.height) :
    ∀ l ∈ Canvas.typedLetters lfb font home text, Drawable lfb l := by
  obtain ⟨_, onScreen⟩ := column_layout font tall (home_layout lfb)
    (fun _ none => absurd none List.not_mem_nil) rfl narrow room
  exact letters_drawable lfb font plain onScreen

/-- **A cleared screen shows a text that fits the first column.** -/
theorem column_shows (tall : 100 ≤ lfb.height) (slim : lfb.ppsl < 1073741824)
    (short : lfb.height < 2147483648)
    (fits : base + 4 * (lfb.height * lfb.ppsl) < 18446744073709551616) (s : Screen)
    {background : Nat} (word : background < 4294967296) {text : Typed}
    (plain : ∀ k ∈ text, k.1.toNat < 128 ∧ k.2 < 4294967296)
    (narrow : Narrow lfb.width 0 (text.map Prod.fst))
    (room : 55 + 20 * newlines (text.map Prod.fst) + 16 ≤ lfb.height) :
    Shows lfb font (Canvas.typedLetters lfb font home text) (fun _ => background)
      (pixelsOf base ((s.clearScreen lfb base background).typed lfb font base text).mem) := by
  obtain ⟨layout, _⟩ := column_layout font tall (home_layout lfb)
    (fun _ none => absurd none List.not_mem_nil) rfl narrow room
  have drawable := column_drawable font tall plain narrow room
  exact Shows.cleared slim short fits word drawable
    (typed_shows (s := s.clearScreen lfb base background) (Nat.le_of_lt fits) home_words drawable
      (letters_apart lfb font layout))

/-! ## Whole lines -/

theorem ascii_of_all {text : List UInt8} (all : text.all (·.toNat < 128) = true) :
    ∀ c ∈ text, c.toNat < 128 := by simpa using all

/-- `n` whole lines of ASCII that end left of the edge. -/
structure Lines (edge n : Nat) (text : List UInt8) : Prop where
  narrow : Narrow edge 0 text
  stop : column 0 text = 0
  count : newlines text = n
  ascii : ∀ c ∈ text, c.toNat < 128

theorem Lines.append {edge m n : Nat} {a b : List UInt8} (ha : Lines edge m a)
    (hb : Lines edge n b) : Lines edge (m + n) (a ++ b) := by
  constructor
  · exact narrow_append.mpr ⟨ha.narrow, ha.stop.symm ▸ hb.narrow⟩
  · rw [column_append, ha.stop, hb.stop]
  · rw [newlines, List.count_append, ← newlines, ← newlines, ha.count, hb.count]
  · exact List.forall_mem_append.mpr ⟨ha.ascii, hb.ascii⟩

theorem Lines.mono {edge edge' n : Nat} {text : List UInt8} (h : Lines edge n text)
    (le : edge ≤ edge') : Lines edge' n text := ⟨h.narrow.mono le, h.stop, h.count, h.ascii⟩

theorem lines_line {edge : Nat} {line : List UInt8} (single : Canvas.newlineChar ∉ line)
    (short : 8 * line.length ≤ edge) (ascii : ∀ c ∈ line, c.toNat < 128) :
    Lines edge 1 (line ++ [Canvas.newlineChar]) := by
  have narrow : Narrow edge 0 line := (narrow_part single (by omega)).1
  have stop : Narrow edge (column 0 line) [Canvas.newlineChar] := by
    rw [Narrow, if_pos rfl]
    trivial
  constructor
  · exact narrow_append.mpr ⟨narrow, stop⟩
  · rw [column_append]
    rfl
  · rw [newlines, List.count_append, List.count_eq_zero.mpr single]
    rfl
  · exact List.forall_mem_append.mpr ⟨ascii, ascii_of_all (by decide)⟩

end Screen

/-! ## Numbers in lines -/

/-- What holds of the digits and of `x` holds of every character of a number. -/
theorem hexText_all {P : UInt8 → Prop} (digit : ∀ d, d < 16 → P (asciiNumbers d))
    (x : P (ascii 'x')) (n : Nat) : ∀ c ∈ hexText n, P c := by
  have zero : P 0x30 := digit 0 (by omega)
  have numeral : ∀ c ∈ hexadecimal.numeral n, P c := by
    intro c listed
    obtain ⟨d, small, rfl⟩ := hexadecimal.mem_numeral listed
    exact digit d small
  have digits : ∀ c ∈ hexDigits n, P c := by
    rw [hexDigits]
    split
    · exact List.forall_mem_cons.mpr ⟨zero, numeral⟩
    · exact numeral
  exact List.forall_mem_cons.mpr ⟨zero, List.forall_mem_cons.mpr ⟨x, digits⟩⟩

theorem hexText_plain (n : Nat) : ascii '%' ∉ hexText n := fun listed =>
  hexText_all (P := (· ≠ ascii '%')) (by decide) (by decide) n _ listed rfl

theorem hexText_line (n : Nat) : Canvas.newlineChar ∉ hexText n := fun listed =>
  hexText_all (P := (· ≠ Canvas.newlineChar)) (by decide) (by decide) n _ listed rfl

theorem hexText_ascii (n : Nat) : ∀ c ∈ hexText n, c.toNat < 128 :=
  hexText_all (P := (·.toNat < 128)) (by decide) (by decide) n

theorem length_hexText_le {n k : Nat} (two : 2 ≤ k) (small : n < 16 ^ k) :
    (hexText n).length ≤ k + 2 := by
  rw [hexText, List.length_cons, List.length_cons, hexDigits, Numerals.numeral]
  have most : (hexadecimal.text n).length ≤ k := hexadecimal.length_text small
  split
  · next low =>
    have single : (hexadecimal.text n).length ≤ 1 := hexadecimal.length_text low
    split
    · simp only [List.length_cons, List.length_nil]
      omega
    · rw [List.length_cons]
      omega
  · split
    · simp only [List.length_cons, List.length_nil]
      omega
    · omega

theorem length_hexText {n : Nat} (word : n < 4294967296) : (hexText n).length ≤ 10 :=
  length_hexText_le (show 2 ≤ 8 by omega) word

/-- What holds of the digits holds of every character of a decimal number. -/
theorem decText_all {P : UInt8 → Prop} (digit : ∀ d, d < 10 → P (decDigit d)) (n : Nat) :
    ∀ c ∈ decText n, P c := by
  have plain : decText n = decimal.numeral n := by
    rw [decText, if_neg (by omega), if_neg (by omega), Int.natAbs_natCast]
  rw [plain]
  intro c listed
  obtain ⟨d, small, rfl⟩ := decimal.mem_numeral listed
  exact digit d small

theorem decText_line (n : Nat) : Canvas.newlineChar ∉ decText n := fun listed =>
  decText_all (P := (· ≠ Canvas.newlineChar)) (by decide) n _ listed rfl

theorem decText_ascii (n : Nat) : ∀ c ∈ decText n, c.toNat < 128 :=
  decText_all (P := (·.toNat < 128)) (by decide) n

theorem length_decText {n k : Nat} (pos : 0 < k) (small : n < 10 ^ k) :
    (decText n).length ≤ k := by
  rw [decText, if_neg (by omega), if_neg (by omega), Int.natAbs_natCast, Numerals.numeral]
  split
  · exact pos
  · exact decimal.length_text small

end KessOS
