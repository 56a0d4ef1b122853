import KessOS.LogInMemory
import KessOS.Panic

/-!
# Any calls over one memory

* `call_holds`: a call with pointers does what was asked with values;
* `run_refines`: after any calls the framebuffer is what a painter would have,
  and the rest of memory is as before.
-/

namespace KessOS.InMemory

open Mem (span AgreeOff Avoids)

/-! ## Any calls -/

/-- A call as it is made, with pointers to its strings. -/
inductive Call where
  | kwrite (str color : Nat)
  | log (format : Nat) (status : Option Status) (args : List Nat)
  | clearScreen (color : Nat)
  | drawSquare (x y w h color : Nat)

def Call.run (o : Objects) (m : Mem) : Call → Option Mem
  | kwrite str color => some (InMemory.kwrite o.canvas str color m)
  | log format status args => (o.log format status args m).map Prod.snd
  | clearScreen color => some (InMemory.clearScreen o.canvas color m)
  | drawSquare x y w h color => some (InMemory.drawSquare o.lfb x y w h color m)

/-- What a call is for. -/
inductive Request where
  | draw (d : Screen.Drawing)
  | clear (color : Nat)

namespace Request

variable (lfb : Framebuffer) (font : Psf1Font)

def run (base : Nat) (s : Screen) : Request → Screen
  | draw d => d.run lfb font base s
  | clear color => s.clearScreen lfb base color

/-- The shapes that go over what is there: a cleared screen is one square. -/
def shapes (c : Canvas.Cursor) : Request → List Shape
  | draw d => Screen.shapes lfb font c [d]
  | clear color => [.square 0 0 lfb.ppsl lfb.height color]

def runAll (base : Nat) (s : Screen) (rs : List Request) : Screen :=
  rs.foldl (fun s r => r.run lfb font base s) s

def allShapes (base : Nat) : Screen → List Request → List Shape
  | _, [] => []
  | s, r :: rest => r.shapes lfb font s.cursor ++ allShapes base (r.run lfb font base s) rest

end Request

/-- The strings of a call are in memory, and `log` has the arguments its format
asks for. -/
inductive Asks (W : Set Nat) (m : Mem) : Call → Request → Prop
  | kwrite {ptr : Nat} {str : CString} (color : Nat) (string : StringAt W m ptr str) :
    Asks W m (.kwrite ptr color) (.draw (.text (colored color str.text)))
  | log {ptr : Nat} {format : CString} {args : List Arg} {slots : List Nat}
    (status : Option Status) (string : StringAt W m ptr format)
    (counted : format.bytes.length < 2147483648)
    (given : List.Forall₂ (ArgAt W m) args slots) (matched : Matches format.bytes args)
    (short : ∀ str, .str str ∈ args → str.bytes.length ≤ 2147483648) :
    Asks W m (.log ptr status slots) (.draw (.text
      (colored (statusColor status) (prefixText status ++ expand format.bytes args))))
  | clearScreen (color : Nat) : Asks W m (.clearScreen color) (.clear color)
  | drawSquare (x y w h color : Nat) :
    Asks W m (.drawSquare x y w h color) (.draw (.square x y w h color))

/-- The glyphs of the ASCII characters, sixteen rows of each. -/
def GlyphsAt (o : Objects) (font : Psf1Font) (W : Set Nat) (m : Mem) : Prop :=
  ∀ k : Nat, k < 127 * font.header.chsize.toNat + 16 →
    byteAt o.glyphBuffer k ∉ W ∧ m (byteAt o.glyphBuffer k) = font.glyph k

/-- Letters that a painter could draw fit. -/
theorem typed_fits {o : Objects} {lfb : Framebuffer} {font : Psf1Font} {W : Set Nat} {m : Mem}
    (glyphs : GlyphsAt o font W m) {c : Canvas.Cursor} (words : (Screen.start c).Words)
    {text : Typed}
    (drawable : ∀ l ∈ Canvas.typedLetters lfb font (Screen.start c) text, Pixels.Drawable lfb l) :
    ∀ a ∈ ((Screen.start c).typed lfb font text).accesses, Fits o lfb font W m a := by
  intro a listed
  rcases KessOS.Canvas.typed_access lfb font words listed with none | ⟨l, typed, ⟨x, y⟩, here⟩
  · cases none
  · have able := drawable l typed
    cases a with
    | read offset =>
      rcases (mem_putChar_read font l.color l.cell.chr x y offset []).mp here with
        none | ⟨_, r, hr, _, rfl⟩
      · cases none
      · have ascii := able.ascii
        have before : l.cell.chr.toNat * font.header.chsize.toNat ≤
            127 * font.header.chsize.toNat := Nat.mul_le_mul_right _ (by omega)
        have offset : glyphOffset font l.cell.chr r =
            (l.cell.chr.toNat * font.header.chsize.toNat + r : Nat) := by
          rw [glyphOffset, charValue, if_pos ascii]
          push_cast
          rfl
        rw [offset]
        exact glyphs _ (by omega)
    | write px py color =>
      rcases (mem_putChar_write font l.color l.cell.chr x y px py color []).mp here with
        none | ⟨ink, _⟩
      · cases none
      · have column := ink.column
        have row := ink.row
        have right := able.right
        have bottom := able.bottom
        exact ⟨by omega, by omega⟩

namespace Request

variable {lfb : Framebuffer} (font : Psf1Font) {base : Nat}

theorem run_words (r : Request) {s : Screen} (words : (Screen.start s.cursor).Words) :
    (Screen.start (r.run lfb font base s).cursor).Words := by
  cases r with
  | draw d =>
    cases d with
    | text t =>
      have after := KessOS.Canvas.typed_words lfb font t words
      exact ⟨after.x, after.y, after.prevX⟩
    | square x y w h color => exact words
  | clear color => exact Screen.home_words

variable (fits : base + 4 * (lfb.height * lfb.ppsl) < 18446744073709551616)
  (narrow : lfb.ppsl < 1073741824) (short : lfb.height < 2147483648)
  (counted : lfb.height * lfb.ppsl ≤ 2147483648) {px py : Nat} (hx : px < lfb.ppsl)
  (hy : py < lfb.height)
include fits narrow short counted hx hy

theorem run_top (r : Request) {s : Screen} (words : (Screen.start s.cursor).Words)
    (inside : ∀ shape ∈ r.shapes lfb font s.cursor, shape.Inside lfb) :
    pixelsOf base (r.run lfb font base s).mem (pixelAt lfb px py) =
      top font px py (pixelsOf base s.mem (pixelAt lfb px py)) (r.shapes lfb font s.cursor) := by
  cases r with
  | draw d => exact Screen.drawings_top font (Nat.le_of_lt fits) counted [d] words inside hx hy
  | clear color =>
    obtain ⟨_, _, word⟩ := inside _ List.mem_cons_self
    have place := pixelAt_inside hx hy
    have cleared := clearScreen_pixel narrow short fits word s.mem (i := pixelAt lfb px py)
      (by unfold pixelAt; omega) (by unfold pixelAt; omega)
    have covered : (Shape.square 0 0 lfb.ppsl lfb.height color).inks font px py = true := by
      simp only [Shape.inks, decide_eq_true_eq]
      omega
    rw [shapes, top, List.foldl_cons, List.foldl_nil, if_pos covered]
    exact cleared

theorem runAll_top (rs : List Request) {s : Screen} (words : (Screen.start s.cursor).Words)
    (inside : ∀ shape ∈ allShapes lfb font base s rs, shape.Inside lfb) :
    pixelsOf base (runAll lfb font base s rs).mem (pixelAt lfb px py) =
      top font px py (pixelsOf base s.mem (pixelAt lfb px py)) (allShapes lfb font base s rs) := by
  induction rs generalizing s with
  | nil => rfl
  | cons r rest ih =>
    rw [allShapes, List.forall_mem_append] at inside
    have first := run_top font fits narrow short counted hx hy r words inside.1
    rw [allShapes, top_append, ← first]
    exact ih (run_words font r words) inside.2

end Request

section
variable {o : Objects} {lfb : Framebuffer} {font : Psf1Font} {m₀ : Mem} (apart : o.Apart lfb)
  (placed : o.Placed lfb font (o.written lfb) m₀) (glyphs : GlyphsAt o font (o.written lfb) m₀)
  (label : ∀ status, StringAt (o.written lfb) m₀ (o.label status) (statusPrefix status))
  (narrow : lfb.ppsl < 1073741824) (short : lfb.height < 2147483648)
  (counted : lfb.height * lfb.ppsl ≤ 2147483648)
include apart placed glyphs label narrow short counted

/-- **One call.** -/
theorem call_holds {c : Call} {r : Request} (asked : Asks (o.written lfb) m₀ c r) {m : Mem}
    {s : Screen} (words : (Screen.start s.cursor).Words)
    (inside : ∀ shape ∈ r.shapes lfb font s.cursor, shape.Inside lfb)
    (h : Holds o (o.written lfb) m₀ m s) :
    ∃ m', c.run o m = some m' ∧
      Holds o (o.written lfb) m₀ m' (r.run lfb font o.base s) := by
  have touched : o.touched lfb ⊆ o.written lfb := Set.subset_union_left
  have screen : o.screen lfb ⊆ o.written lfb := Set.subset_union_right.trans touched
  have started : Holds o (o.written lfb) m₀ m (shown o lfb s.mem (Screen.start s.cursor)) := h
  have fits {t : Typed} (letters : ∀ shape ∈ Screen.shapes lfb font s.cursor [.text t],
      shape.Inside lfb) : ∀ a ∈ ((Screen.start s.cursor).typed lfb font t).accesses,
        Fits o lfb font (o.written lfb) m₀ a :=
    typed_fits glyphs words fun l listed =>
      letters (.letter l) (List.mem_append_left _ (List.mem_map_of_mem listed))
  have now := placed.agree h.frame
  cases asked with
  | kwrite color string =>
    have drawn := fits inside
    rw [← KessOS.Canvas.kwrite_typed] at drawn
    have held := kwrite_written apart placed ((string.agree h.frame).mono touched) color drawn
      started
    rw [KessOS.Canvas.kwrite_typed] at held
    exact ⟨_, rfl, held⟩
  | log status string formatShort given matched argsShort =>
    exact log_text apart placed label string formatShort status given matched argsShort
      (fits inside) started
  | clearScreen color =>
    have cleared := clearScreen_holds now apart screen narrow short color
      (h.restart (o.touched lfb))
    exact ⟨_, rfl, h.trans (cleared.mono touched)⟩
  | drawSquare x y w h color =>
    have onScreen : OnScreen lfb (KessOS.drawSquare lfb x y w h color []) := by
      intro e listed
      exact_mod_cast Screen.square_range counted (inside _ List.mem_cons_self) e listed
    have squared := drawSquare_holds now apart screen onScreen (started.restart (o.touched lfb))
    exact ⟨_, rfl, started.trans (squared.mono touched)⟩

/-- **One call after another.** -/
theorem calls_hold {calls : List Call} {requests : List Request}
    (asked : List.Forall₂ (Asks (o.written lfb) m₀) calls requests) {m : Mem} {s : Screen}
    (words : (Screen.start s.cursor).Words)
    (inside : ∀ shape ∈ Request.allShapes lfb font o.base s requests, shape.Inside lfb)
    (h : Holds o (o.written lfb) m₀ m s) :
    ∃ m', calls.foldlM (Call.run o) m = some m' ∧
      Holds o (o.written lfb) m₀ m' (Request.runAll lfb font o.base s requests) := by
  induction asked generalizing m s with
  | nil => exact ⟨m, rfl, h⟩
  | cons first _ ih =>
    rw [Request.allShapes, List.forall_mem_append] at inside
    obtain ⟨m₁, run, held⟩ :=
      call_holds apart placed glyphs label narrow short counted first words inside.1 h
    obtain ⟨m', later, result⟩ := ih (Request.run_words font _ words) inside.2 held
    refine ⟨m', ?_, result⟩
    rw [List.foldlM_cons, run]
    exact later

/-- **Any calls over one memory**, where the shapes they draw stay on the screen
and nothing they read is written: they return, the framebuffer is what a painter
would have, the cursor is that of the model, and other memory is as it was. -/
theorem run_refines {calls : List Call} {requests : List Request}
    (asked : List.Forall₂ (Asks (o.written lfb) m₀) calls requests)
    (inside : ∀ shape ∈ Request.allShapes lfb font o.base ⟨o.cursor m₀, m₀⟩ requests,
      shape.Inside lfb) :
    ∃ m', calls.foldlM (Call.run o) m₀ = some m' ∧
      (∀ px py, px < lfb.ppsl → py < lfb.height →
        pixelsOf o.base m' (pixelAt lfb px py) =
          top font px py (pixelsOf o.base m₀ (pixelAt lfb px py))
            (Request.allShapes lfb font o.base ⟨o.cursor m₀, m₀⟩ requests)) ∧
      o.cursor m' = (Request.runAll lfb font o.base ⟨o.cursor m₀, m₀⟩ requests).cursor ∧
      ∀ a, a ∉ o.written lfb → m' a = m₀ a := by
  have words : (Screen.start (o.cursor m₀)).Words :=
    ⟨Mem.readLE_lt m₀ _ 4, Mem.readLE_lt m₀ _ 4, Mem.readLE_lt m₀ _ 4⟩
  obtain ⟨m', run, held⟩ := calls_hold apart placed glyphs label narrow short counted asked
    (s := ⟨o.cursor m₀, m₀⟩) words inside ⟨rfl, .refl _ m₀, .refl _ m₀⟩
  refine ⟨m', run, fun px py hx hy => ?_, held.cursor, fun a outside => (held.frame outside).symm⟩
  rw [← Request.runAll_top font apart.room narrow short counted hx hy requests words inside]
  exact held.pixel apart hx hy

end

/-! ### A memory -/

/-- Everything that is read below the buffers, and the framebuffer far above. -/
def lowObjects : Objects where
  canvas := 0
  lfb := 32
  font := 64
  header := 80
  glyphBuffer := 0x1000
  base := 0xC0000000
  decString := 0x2000
  hexString := 0x2050
  terminated := 0x20A0
  terminatedArg := 0x20A2
  label
    | .warning => 84
    | .info => 95
    | .panic => 103
    | .critical => 123

def lowBytes : List UInt8 :=
  -- The canvas, the wide screen, a font without a clear bit.
  [0, 0, 0, 0, 55, 0, 0, 0, 0, 0, 0, 0, 0, 0, 0, 0, 32, 0, 0, 0, 0, 0, 0, 0, 64, 0, 0, 0, 0, 0, 0, 0,
    0, 0, 0, 0xC0, 0, 0, 0, 0, 0, 0, 0, 0, 0, 0, 0, 0, 0, 5, 0, 0, 0x20, 3, 0, 0, 0, 5, 0, 0,
    0, 0, 0, 0, 80, 0, 0, 0, 0, 0, 0, 0, 0, 0x10, 0, 0, 0, 0, 0, 0, 0x36, 4, 0, 16] ++
  (statusPrefix .warning).bytes ++ [0] ++ (statusPrefix .info).bytes ++ [0] ++
  (statusPrefix .panic).bytes ++ [0] ++ (statusPrefix .critical).bytes ++ [0] ++
  "n=%d".toList.map ascii ++ [0] ++ panicmsg2.bytes ++ [0] ++ panicmsg3.bytes ++ [0] ++
  newline.bytes ++ [0] ++ rule.bytes ++ [0] ++ title.bytes ++ [0] ++ lineFormat.bytes ++ [0] ++
  panicmsg1.bytes ++ [0]

def lowMem : Mem := fun a => lowBytes.getD a 0xff

def lowFont : Psf1Font := ⟨⟨0x36, 0x04, 0, 16⟩, fun _ => 0xff⟩

theorem low_read {a : Nat} (lo : 12 ≤ a) (hi : a < 0x2000 ∨ 0x20A4 ≤ a ∧ a < 0xC0000000) :
    a ∉ lowObjects.written wideScreen := by
  rintro ((⟨_, _⟩ | ⟨_, _⟩) | ((⟨_, _⟩ | ⟨_, _⟩) | ⟨_, _⟩ | ⟨_, _⟩)) <;>
    simp only [lowObjects] at * <;> omega

theorem low_avoids {p n : Nat} (lo : 12 ≤ p) (hi : p + n ≤ 0x2000) :
    Avoids (span p n) (lowObjects.written wideScreen) := by
  rintro a ⟨above, below⟩
  exact low_read (by omega) (Or.inl (by omega))

theorem low_apart : lowObjects.Apart wideScreen := by
  constructor
  · rintro a ⟨_, low⟩ ⟨high, _⟩
    simp only [lowObjects] at low high
    omega
  · rintro a buffer touched
    rcases touched with ⟨_, _⟩ | ⟨_, _⟩ <;> rcases buffer with (⟨_, _⟩ | ⟨_, _⟩) | ⟨_, _⟩ | ⟨_, _⟩ <;>
      simp only [lowObjects] at * <;> omega
  all_goals decide

theorem low_placed : lowObjects.Placed wideScreen lowFont (lowObjects.written wideScreen) lowMem := by
  constructor
  case pointers => exact low_avoids (by decide) (by decide)
  case description => exact low_avoids (by decide) (by decide)
  case fontPointers => exact low_avoids (by decide) (by decide)
  case headerByte => exact low_read (by decide) (by decide)
  all_goals decide

theorem low_glyphs : GlyphsAt lowObjects lowFont (lowObjects.written wideScreen) lowMem := by
  intro k inside
  have rows : k < 127 * 16 + 16 := inside
  have length : lowBytes.length ≤ 0x1000 := by decide +kernel
  have address : byteAt lowObjects.glyphBuffer k = 0x1000 + k := byteAt_small (by
    show 0x1000 + k < _
    omega)
  rw [address]
  constructor
  · exact low_read (by omega) (by omega)
  · exact List.getD_eq_default _ _ (Nat.le_trans length (Nat.le_add_right 0x1000 k))

/-- A string with its terminator in a list of bytes. -/
theorem literal_at {W : Set Nat} {bytes : List UInt8} {d : UInt8} {ptr : Nat} {str : CString}
    (there : (bytes.drop ptr).take (str.bytes.length + 1) = str.bytes ++ [0])
    (inside : ptr + str.bytes.length < 18446744073709551616)
    (apart : Avoids (span ptr (str.bytes.length + 1)) W) :
    StringAt W (fun a => bytes.getD a d) ptr str := by
  refine ⟨fun k hk => ?_, inside, apart⟩
  have char : bytes[ptr + k]? = (str.bytes ++ [0])[k]? := by
    rw [← there, List.getElem?_take_of_lt (by omega), List.getElem?_drop]
  rw [List.getD_eq_getElem?_getD, char]
  by_cases last : k = str.bytes.length
  · rw [last, List.getElem?_concat_length, List.getD_eq_default _ _ (Nat.le_refl _)]
    rfl
  · rw [List.getElem?_append_left (by omega), List.getD_eq_getElem _ _ (by omega),
      List.getElem?_eq_getElem (by omega)]
    rfl

theorem low_label (status : Status) : StringAt (lowObjects.written wideScreen) lowMem
    (lowObjects.label status) (statusPrefix status) := by
  cases status <;>
    exact literal_at (by decide +kernel) (by decide) (low_avoids (by decide) (by decide))

theorem low_format : StringAt (lowObjects.written wideScreen) lowMem 135 (.literal "n=%d") :=
  literal_at (by decide +kernel) (by decide) (low_avoids (by decide) (by decide))

def lowCalls : List Call :=
  [.clearScreen 0, .log 135 none [42], .drawSquare 0 0 500 30 0xFFFFFF]

def lowRequests : List Request :=
  [.clear 0, .draw (.text (colored 0xFFFFFF ("n=42".toList.map ascii))),
    .draw (.square 0 0 500 30 0xFFFFFF)]

theorem low_asked : List.Forall₂ (Asks (lowObjects.written wideScreen) lowMem) lowCalls lowRequests := by
  have given : List.Forall₂ (ArgAt (lowObjects.written wideScreen) lowMem) [.word 42] [42] :=
    .cons rfl .nil
  have log : Asks (lowObjects.written wideScreen) lowMem (.log 135 none [42]) (.draw (.text
      (colored 0xFFFFFF ("n=42".toList.map ascii)))) := by
    refine .log none low_format (by decide) given (.cons trivial .nil) ?_
    intro str listed
    simp at listed
  exact .cons (.clearScreen 0) (.cons log (.cons (.drawSquare 0 0 500 30 0xFFFFFF) .nil))

theorem low_shapes (shape : Shape)
    (listed : shape ∈ Request.allShapes wideScreen lowFont lowObjects.base
      ⟨lowObjects.cursor lowMem, lowMem⟩ lowRequests) : shape.Inside wideScreen := by
  have shapes : Request.allShapes wideScreen lowFont lowObjects.base
      ⟨lowObjects.cursor lowMem, lowMem⟩ lowRequests =
        [.square 0 0 1280 800 0, .letter ⟨⟨ascii 'n', 0, 55⟩, 0xFFFFFF⟩,
          .letter ⟨⟨ascii '=', 8, 55⟩, 0xFFFFFF⟩, .letter ⟨⟨ascii '4', 16, 55⟩, 0xFFFFFF⟩,
          .letter ⟨⟨ascii '2', 24, 55⟩, 0xFFFFFF⟩, .square 0 0 500 30 0xFFFFFF] := by rfl
  rw [shapes] at listed
  simp only [List.mem_cons, List.not_mem_nil, or_false] at listed
  rcases listed with rfl | rfl | rfl | rfl | rfl | rfl
  · exact ⟨by decide, by decide, by decide⟩
  · exact ⟨by decide, by decide, by decide, by decide⟩
  · exact ⟨by decide, by decide, by decide, by decide⟩
  · exact ⟨by decide, by decide, by decide, by decide⟩
  · exact ⟨by decide, by decide, by decide, by decide⟩
  · exact ⟨by decide, by decide, by decide⟩

theorem run_refines_low : ∃ m', lowCalls.foldlM (Call.run lowObjects) lowMem = some m' ∧
    (∀ px py, px < wideScreen.ppsl → py < wideScreen.height →
      pixelsOf lowObjects.base m' (pixelAt wideScreen px py) =
        top lowFont px py (pixelsOf lowObjects.base lowMem (pixelAt wideScreen px py))
          (Request.allShapes wideScreen lowFont lowObjects.base
            ⟨lowObjects.cursor lowMem, lowMem⟩ lowRequests)) ∧
    lowObjects.cursor m' = (Request.runAll wideScreen lowFont lowObjects.base
      ⟨lowObjects.cursor lowMem, lowMem⟩ lowRequests).cursor ∧
    ∀ a, a ∉ lowObjects.written wideScreen → m' a = lowMem a :=
  run_refines low_apart low_placed low_glyphs low_label (by decide) (by decide) (by decide)
    low_asked low_shapes

end KessOS.InMemory
