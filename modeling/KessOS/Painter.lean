import KessOS.InMemory

/-!
# Drawings over one another

Text and squares go to the same framebuffer, each over what is there.

* `top`: the colour of a pixel, as a painter would have it: that of the last
  shape over it;
* `log_typed`, `drawSquare_pixels`: what `log` and `draw_square` do in memory;
* `drawings_top`: after any text and squares that stay on the screen, the
  framebuffer is what the painter would have;
* `draw_agree`: and no other memory has changed.
-/

namespace KessOS

/-! ## The painter -/

inductive Shape where
  | square (x y w h color : Nat)
  | letter (l : Letter)

namespace Shape

def inks (font : Psf1Font) (px py : Nat) : Shape → Bool
  | square x y w h _ => (x ≤ px ∧ px < x + w) ∧ y ≤ py ∧ py < y + h
  | letter l => ((l.cell.xOff ≤ px ∧ px < l.cell.xOff + 8) ∧
      l.cell.yOff ≤ py ∧ py < l.cell.yOff + 16) &&
        Pixels.glyphBit font l.cell.chr (py - l.cell.yOff) (px - l.cell.xOff)

def color : Shape → Nat
  | square _ _ _ _ color => color
  | letter l => l.color

/-- On the screen, in a colour that a pixel can have. A letter must be ASCII too,
since `char` is signed. -/
def Inside (lfb : Framebuffer) : Shape → Prop
  | square x y w h color => x + w ≤ lfb.ppsl ∧ y + h ≤ lfb.height ∧ color < 4294967296
  | letter l => Pixels.Drawable lfb l

end Shape

/-- The colour of a pixel under some shapes, the last one on top. -/
def top (font : Psf1Font) (px py : Nat) (background : Nat) (shapes : List Shape) : Nat :=
  shapes.foldl (fun c s => if s.inks font px py then s.color else c) background

theorem top_append (font : Psf1Font) (px py background : Nat) (a b : List Shape) :
    top font px py background (a ++ b) = top font px py (top font px py background a) b :=
  List.foldl_append

theorem inks_letter (font : Psf1Font) (l : Letter) (px py : Nat) :
    (Shape.letter l).inks font px py = true ↔
      Pixels.Inked font l.cell.chr l.cell.xOff l.cell.yOff px py := by
  simp only [Shape.inks, Bool.and_eq_true, decide_eq_true_eq]
  constructor
  · rintro ⟨⟨⟨_, _⟩, _, _⟩, bit⟩
    exact ⟨py - l.cell.yOff, px - l.cell.xOff, by omega, by omega, by omega, by omega, bit⟩
  · rintro ⟨i, j, hi, hj, rfl, rfl, bit⟩
    rw [Nat.add_sub_cancel_left, Nat.add_sub_cancel_left]
    exact ⟨⟨⟨by omega, by omega⟩, by omega, by omega⟩, bit⟩

namespace Screen

variable {lfb : Framebuffer} (font : Psf1Font) {base : Nat}

/-! ## Letters -/

theorem paint_top {letters : List Letter} (drawable : ∀ l ∈ letters, Pixels.Drawable lfb l)
    (p : Pixels) {px : Nat} (py : Nat) (hx : px < lfb.ppsl) :
    Pixels.paint lfb font letters p (pixelAt lfb px py) =
      top font px py (p (pixelAt lfb px py)) (letters.map .letter) := by
  induction letters generalizing p with
  | nil => rfl
  | cons l letters ih =>
    have here := drawable l List.mem_cons_self
    obtain ⟨painted, kept⟩ :=
      Pixels.putChar_pixel font l.color here.ascii here.right here.bottom p py hx
    rw [← inks_letter] at painted kept
    rw [Pixels.paint, List.foldl_cons, ← Pixels.paint,
      ih fun l' listed => drawable l' (List.mem_cons_of_mem l listed)]
    rw [List.map_cons, top, top, List.foldl_cons]
    congr 1
    split
    · next ink => exact painted ink
    · next blank => exact kept blank

/-! ## What is drawn in memory -/

/-- `draw_square(canvas, ...)`. -/
def drawSquare (lfb : Framebuffer) (base x y w h color : Nat) (s : Screen) : Screen :=
  { s with mem := storePixels base s.mem (KessOS.drawSquare lfb x y w h color []) }

/-- A call of `log`, with what its static buffers hold. -/
def log (lfb : Framebuffer) (font : Psf1Font) (base : Nat) (format : CString)
    (status : Option Status) (args : List Arg) (decString hexString : Mem) (s : Screen) :
    Option Screen :=
  (Printer.log lfb font format status args ⟨start s.cursor, decString, hexString, []⟩).map
    fun p =>
      { cursor := p.canvas.cursor
        mem := storePixels base s.mem (pixelWrites lfb p.canvas.accesses) }

/-- `log` types the expansion of its format. -/
theorem log_typed {format : CString} {args : List Arg} (status : Option Status)
    (matched : Matches format.bytes args) (counted : format.bytes.length < 2147483648)
    (short : ∀ str, .str str ∈ args → str.bytes.length ≤ 2147483648)
    (decString hexString : Mem) (s : Screen) :
    s.log lfb font base format status args decString hexString =
      some (s.typed lfb font base
        (colored (statusColor status) (prefixText status ++ expand format.bytes args))) := by
  obtain ⟨p, run, _, canvas⟩ := Printer.log_type lfb font status matched counted short
    ⟨start s.cursor, decString, hexString, []⟩ []
  rw [List.append_nil] at run
  rw [log, run, Option.map_some, canvas, typed, Canvas.typed_colored]
  rfl

/-- The static buffers do not matter. -/
theorem log_iff {format : CString} {args : List Arg} (status : Option Status)
    (matched : Matches format.bytes args) (counted : format.bytes.length < 2147483648)
    (short : ∀ str, .str str ∈ args → str.bytes.length ≤ 2147483648) {s s' : Screen} :
    (∃ decString hexString, s.log lfb font base format status args decString hexString = some s') ↔
      s' = s.typed lfb font base
        (colored (statusColor status) (prefixText status ++ expand format.bytes args)) := by
  constructor
  · rintro ⟨decString, hexString, run⟩
    rw [log_typed font status matched counted short] at run
    exact (Option.some.inj run).symm
  · rintro rfl
    exact ⟨fun _ => 0, fun _ => 0, log_typed font status matched counted short _ _ s⟩

/-- Without specifiers it types the format as it is. -/
theorem log_plain {format : CString} (status : Option Status)
    (none : specifiers format.bytes = []) (counted : format.bytes.length < 2147483648)
    (decString hexString : Mem) (s : Screen) :
    s.log lfb font base format status [] decString hexString =
      some (s.typed lfb font base
        (colored (statusColor status) (prefixText status ++ expand format.bytes []))) := by
  have matched : Matches format.bytes [] := by
    rw [Matches, none]
    exact .nil
  exact log_typed font status matched counted (fun _ listed => absurd listed List.not_mem_nil) _ _ s

/-- The writes of a square that stays on the screen. -/
theorem mem_square (counted : lfb.height * lfb.ppsl ≤ 2147483648) {x y w h color : Nat}
    (inside : (Shape.square x y w h color).Inside lfb) (e : Int × Nat) :
    e ∈ KessOS.drawSquare lfb x y w h color [] ↔
      ∃ i j, i < w ∧ j < h ∧ e = (pixelAt lfb (x + i) (y + j), color) := by
  obtain ⟨right, bottom, word⟩ := inside
  have ppslWord := lfb.ppslWord
  have heightWord := lfb.heightWord
  rw [mem_drawSquare lfb (by omega) (by omega) (by omega) (by omega)]
  constructor
  · rintro (none | ⟨_, i, hi, _, j, hj, rfl⟩)
    · cases none
    · exact ⟨i, j, hi, hj, by rw [Pixels.index_small counted (by omega) (by omega)]⟩
  · rintro ⟨i, j, hi, hj, rfl⟩
    refine Or.inr ⟨by omega, i, hi, by omega, j, hj, ?_⟩
    rw [Pixels.index_small counted (by omega) (by omega)]

theorem square_range (counted : lfb.height * lfb.ppsl ≤ 2147483648) {x y w h color : Nat}
    (inside : (Shape.square x y w h color).Inside lfb) :
    ∀ e ∈ KessOS.drawSquare lfb x y w h color [],
      0 ≤ e.1 ∧ e.1 < (lfb.height * lfb.ppsl : Nat) := by
  intro e listed
  obtain ⟨i, j, hi, hj, rfl⟩ := (mem_square counted inside e).mp listed
  obtain ⟨right, bottom, _⟩ := inside
  have place : x + i + (y + j) * lfb.ppsl < lfb.height * lfb.ppsl :=
    pixelAt_inside (by omega) (by omega)
  unfold pixelAt
  omega

section
variable (fits : base + 4 * (lfb.height * lfb.ppsl) ≤ 18446744073709551616)
include fits

theorem drawSquare_pixels (counted : lfb.height * lfb.ppsl ≤ 2147483648) {x y w h color : Nat}
    (inside : (Shape.square x y w h color).Inside lfb) (s : Screen) {px py : Nat}
    (hx : px < lfb.ppsl) (hy : py < lfb.height) :
    pixelsOf base (s.drawSquare lfb base x y w h color).mem (pixelAt lfb px py) =
      top font px py (pixelsOf base s.mem (pixelAt lfb px py)) [.square x y w h color] := by
  have writes := mem_square counted inside
  have range := square_range counted inside
  obtain ⟨right, bottom, word⟩ := inside
  have whole : (KessOS.drawSquare lfb x y w h color []).map stored =
      KessOS.drawSquare lfb x y w h color [] := by
    have same : ∀ e ∈ KessOS.drawSquare lfb x y w h color [], stored e = id e := by
      intro e listed
      obtain ⟨i, j, _, _, rfl⟩ := (writes e).mp listed
      rw [stored, Nat.mod_eq_of_lt word, id]
    rw [List.map_congr_left same, List.map_id]
  have place := pixelAt_inside hx hy
  have lo : 0 ≤ pixelAt lfb px py := by
    unfold pixelAt
    omega
  have hi : pixelAt lfb px py < (lfb.height * lfb.ppsl : Nat) := by
    unfold pixelAt
    omega
  rw [drawSquare, storePixels_pixels fits s.mem range lo hi, whole]
  simp only [top, List.foldl_cons, List.foldl_nil, Shape.inks, Shape.color, decide_eq_true_eq]
  split
  · next covered =>
    obtain ⟨⟨left, _⟩, above, _⟩ := covered
    apply writeAll_mem
    · intro e listed
      obtain ⟨i, j, _, _, rfl⟩ := (writes e).mp listed
      rfl
    · refine (writes _).mpr ⟨px - x, py - y, by omega, by omega, ?_⟩
      rw [Nat.add_sub_cancel' left, Nat.add_sub_cancel' above]
  · next outside =>
    apply writeAll_other
    intro e listed same
    obtain ⟨i, j, _, _, rfl⟩ := (writes e).mp listed
    obtain ⟨rfl, rfl⟩ := pixelAt_inj (by omega) hx same
    omega

end

/-! ## Any drawings -/

inductive Drawing where
  | text (t : Typed)
  | square (x y w h color : Nat)

def Drawing.run (lfb : Framebuffer) (font : Psf1Font) (base : Nat) (s : Screen) : Drawing → Screen
  | .text t => s.typed lfb font base t
  | .square x y w h color => s.drawSquare lfb base x y w h color

def draw (lfb : Framebuffer) (font : Psf1Font) (base : Nat) (s : Screen) (ds : List Drawing) :
    Screen := ds.foldl (fun s d => d.run lfb font base s) s

/-- The shapes that are drawn, the text from the cursor on. -/
def shapes (lfb : Framebuffer) (font : Psf1Font) : Canvas.Cursor → List Drawing → List Shape
  | _, [] => []
  | c, .text t :: rest =>
    (Canvas.typedLetters lfb font (start c) t).map .letter ++
      shapes lfb font ((start c).typed lfb font t).cursor rest
  | c, .square x y w h color :: rest => .square x y w h color :: shapes lfb font c rest

/-- **The framebuffer is what a painter would have**: each pixel has the colour
of the last shape drawn over it. -/
theorem drawings_top (fits : base + 4 * (lfb.height * lfb.ppsl) ≤ 18446744073709551616)
    (counted : lfb.height * lfb.ppsl ≤ 2147483648) (ds : List Drawing) {s : Screen}
    (words : (start s.cursor).Words)
    (inside : ∀ shape ∈ shapes lfb font s.cursor ds, shape.Inside lfb) {px py : Nat}
    (hx : px < lfb.ppsl) (hy : py < lfb.height) :
    pixelsOf base (s.draw lfb font base ds).mem (pixelAt lfb px py) =
      top font px py (pixelsOf base s.mem (pixelAt lfb px py)) (shapes lfb font s.cursor ds) := by
  induction ds generalizing s with
  | nil => rfl
  | cons d rest ih =>
    rw [draw, List.foldl_cons, ← draw]
    cases d with
    | text t =>
      rw [shapes, List.forall_mem_append] at inside
      have drawable : ∀ l ∈ Canvas.typedLetters lfb font (start s.cursor) t,
          Pixels.Drawable lfb l := fun l listed => inside.1 _ (List.mem_map_of_mem listed)
      have place := pixelAt_inside hx hy
      have painted := typed_pixels fits words drawable (i := pixelAt lfb px py)
        (by unfold pixelAt; omega) (by unfold pixelAt; omega)
      rw [paint_top font drawable _ py hx] at painted
      have after := Canvas.typed_words lfb font t words
      refine (ih (s := s.typed lfb font base t) ⟨after.x, after.y, after.prevX⟩ inside.2).trans ?_
      rw [painted, shapes, top_append]
      rfl
    | square x y w h color =>
      rw [shapes, List.forall_mem_cons] at inside
      refine (ih (s := s.drawSquare lfb base x y w h color) words inside.2).trans ?_
      rw [drawSquare_pixels font fits counted inside.1 s hx hy, ← top_append]
      rfl

/-! ## Other memory -/

open Mem (AgreeOff)

/-- The bytes of the framebuffer. -/
def framebuffer (lfb : Framebuffer) (base : Nat) : Set Nat :=
  Mem.span base (4 * (lfb.height * lfb.ppsl))

/-- Screens that differ in some bytes only, drawn on alike. -/
theorem draw_congr (base : Nat) {W : Set Nat} (ds : List Drawing) {s s' : Screen}
    (same : s.cursor = s'.cursor) (agree : AgreeOff W s.mem s'.mem) :
    (s.draw lfb font base ds).cursor = (s'.draw lfb font base ds).cursor ∧
      AgreeOff W (s.draw lfb font base ds).mem (s'.draw lfb font base ds).mem := by
  induction ds generalizing s s' with
  | nil => exact ⟨same, agree⟩
  | cons d rest ih =>
    rw [draw, draw, List.foldl_cons, List.foldl_cons, ← draw, ← draw]
    cases d with
    | text t =>
      apply ih
      · show ((start s.cursor).typed lfb font t).cursor = ((start s'.cursor).typed lfb font t).cursor
        rw [same]
      · show AgreeOff W (storePixels base s.mem (pixelWrites lfb
            ((start s.cursor).typed lfb font t).accesses)) (storePixels base s'.mem _)
        rw [same]
        exact InMemory.storePixels_congr agree base _
    | square x y w h color => exact ih same (InMemory.storePixels_congr agree base _)

end Screen

end KessOS
