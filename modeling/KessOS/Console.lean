import KessOS.Font

/-!
# The text console

`kwrite` moves a cursor through newlines and columns and draws one cell for
every other character. It tests the top edge of a cell against the height and
nothing against the width.

* `kwrite_eq`: a call is a fold over the characters its counter reaches;
* `text_cells`: the cells of a text are on screen exactly when its lines fit;
* `console_iff`: the same for every run from the first canvas.
-/

namespace KessOS

/-- A string in memory: no `NUL` inside, and no larger than an object can be. -/
structure CString where
  bytes : List UInt8
  noNul : 0 ∉ bytes
  fits : bytes.length < 9223372036854775808

/-- The characters an `int` counter reaches. -/
def CString.text (str : CString) : List UInt8 := str.bytes.take 2147483648

theorem CString.text_of_short {str : CString} (short : str.bytes.length ≤ 2147483648) :
    str.text = str.bytes := List.take_of_length_le short

/-- What `kwrite` hands to `putChar` for a cell. -/
structure Cell where
  chr : UInt8
  xOff : Nat
  yOff : Nat
  deriving DecidableEq

/-- Every pixel of the 8 by 16 cell is on the screen. -/
def Cell.OnScreen (lfb : Framebuffer) (cell : Cell) : Prop :=
  ∀ px py, cell.xOff ≤ px → px < cell.xOff + 8 → cell.yOff ≤ py → py < cell.yOff + 16 →
    px < lfb.width ∧ py < lfb.height

/-- The cursor, and a record of the cells drawn and of what drawing them did,
latest first. -/
structure Canvas where
  x : Nat
  y : Nat
  prevX : Nat
  cells : List Cell
  accesses : List Access

/-- The kernel's canvas before its first line. -/
def canvas : Canvas where
  x := 0
  y := 55
  prevX := 0
  cells := []
  accesses := []

namespace Canvas

def newline (c : Canvas) : Canvas :=
  { c with x := c.prevX, y := (c.y + 20) % 4294967296 }

/-- Below the screen the text goes on at the top, the next lines further right. -/
def wrap (lfb : Framebuffer) (c : Canvas) : Canvas :=
  if c.y ≥ lfb.height then { c with prevX := (c.prevX + 300) % 4294967296, y := 10 } else c

def draw (font : Psf1Font) (color : Nat) (c : Canvas) (chr : UInt8) : Canvas :=
  { c with
    x := (c.x + 8) % 4294967296
    cells := ⟨chr, c.x, c.y⟩ :: c.cells
    accesses := putChar font color chr c.x c.y c.accesses }

def newlineChar : UInt8 := 0x0a

variable (lfb : Framebuffer) (font : Psf1Font)

/-- One iteration of the loop. -/
def write (color : Nat) (c : Canvas) (chr : UInt8) : Canvas :=
  if chr = newlineChar then c.newline else (c.wrap lfb).draw font color chr

/-- `for (int i = 0; i < strlen(STR); ++i)`, the length being a `size_t`. -/
def kwrite (c : Canvas) (str : CString) (color : Nat) : Canvas :=
  forInt u64 str.bytes.length (fun i c => c.write lfb font color (str.bytes.getD (u64 i) 0))
    intFuel 0 c

/-- Where clearing leaves the cursor. -/
def clearScreen (c : Canvas) : Canvas := { c with prevX := 0, x := 0, y := 55 }

/-! ## Runs -/

inductive Op where
  | kwrite (str : CString) (color : Nat)
  | clearScreen

def Op.run (c : Canvas) : Op → Canvas
  | .kwrite str color => c.kwrite lfb font str color
  | .clearScreen => c.clearScreen

def runOps (c : Canvas) (ops : List Op) : Canvas := ops.foldl (fun c op => op.run lfb font c) c

/-! ## A call is a fold -/

theorem kwrite_eq (c : Canvas) (str : CString) (color : Nat) :
    c.kwrite lfb font str color = str.text.foldl (fun c chr => c.write lfb font color chr) c := by
  have fits := str.fits
  have loop := forInt_u64_getD str.bytes 0 (fun chr c => c.write lfb font color chr) (by omega) c
  rw [kwrite, CString.text]
  exact loop

/-! ## Lines of text -/

/-- The lengths of the lines of a text: that of the first, and the others. -/
def lineLengths : List UInt8 → Nat × List Nat
  | [] => (0, [])
  | chr :: rest =>
    let (n, ns) := lineLengths rest
    if chr = newlineChar then (0, n :: ns) else (n + 1, ns)

structure Cursor where
  x : Nat
  y : Nat
  prevX : Nat

def cursor (c : Canvas) : Cursor := ⟨c.x, c.y, c.prevX⟩

/-- `n` characters fit to the right of the cursor, and the line does not stick
out below: it ends above the bottom, or it starts past it and wraps. -/
def LineFits (c : Cursor) (n : Nat) : Prop :=
  n = 0 ∨ c.x + 8 * n ≤ lfb.width ∧ (c.y + 16 ≤ lfb.height ∨ lfb.height ≤ c.y)

/-- The cursor after a line of `n` characters and the newline. -/
def nextLine (c : Cursor) (n : Nat) : Cursor :=
  if n = 0 ∨ c.y < lfb.height then ⟨c.prevX, (c.y + 20) % 4294967296, c.prevX⟩
  else ⟨(c.prevX + 300) % 4294967296, 30, (c.prevX + 300) % 4294967296⟩

/-- Each of the lines fits where it starts. -/
def TextFits : Cursor → List Nat → Prop
  | _, [] => True
  | c, n :: ns => LineFits lfb c n ∧ TextFits (nextLine lfb c n) ns

def textLines (text : List UInt8) : List Nat := (lineLengths text).1 :: (lineLengths text).2

theorem onScreen_iff (cell : Cell) : cell.OnScreen lfb ↔
    cell.xOff + 8 ≤ lfb.width ∧ cell.yOff + 16 ≤ lfb.height := by
  constructor
  · intro inside
    have corner := inside (cell.xOff + 7) (cell.yOff + 15) (by omega) (by omega) (by omega)
      (by omega)
    omega
  · rintro ⟨right, bottom⟩ px py _ _ _ _
    omega

/-- The first character of a line: its cell, and the rest of the line from there. -/
theorem lineFits_succ (tall : 71 ≤ lfb.height) (color : Nat) (c : Canvas) {chr : UInt8}
    (drawn : chr ≠ newlineChar) (n : Nat) : LineFits lfb c.cursor (n + 1) ↔
      Cell.OnScreen lfb ⟨chr, (c.wrap lfb).x, (c.wrap lfb).y⟩ ∧
        LineFits lfb (c.write lfb font color chr).cursor n := by
  have right := lfb.fits
  have word := lfb.ppslWord
  rw [onScreen_iff, write, if_neg drawn]
  unfold wrap
  split
  · next below =>
    simp only [LineFits, cursor, draw]
    omega
  · next above =>
    simp only [LineFits, cursor, draw]
    omega

theorem nextLine_succ (tall : 71 ≤ lfb.height) (color : Nat) (c : Canvas) {chr : UInt8}
    (drawn : chr ≠ newlineChar) (n : Nat) : nextLine lfb c.cursor (n + 1) =
      nextLine lfb (c.write lfb font color chr).cursor n := by
  rw [write, if_neg drawn]
  unfold wrap
  split
  · next below =>
    have top : (10 : Nat) < lfb.height := by omega
    have stays : ¬ c.y < lfb.height := by omega
    simp only [nextLine, cursor, draw, Nat.add_eq_zero_iff, Nat.one_ne_zero, and_false, false_or,
      stays, ↓reduceIte, top, or_true]
  · next above =>
    have stays : c.y < lfb.height := by omega
    simp only [nextLine, cursor, draw, stays, or_true, ↓reduceIte]

theorem cells_write (color : Nat) (c : Canvas) {chr : UInt8} (drawn : chr ≠ newlineChar) :
    (c.write lfb font color chr).cells = ⟨chr, (c.wrap lfb).x, (c.wrap lfb).y⟩ :: c.cells := by
  rw [write, if_neg drawn]
  unfold wrap
  split <;> rfl

/-- **The cells of a text are on screen exactly when its lines fit.** -/
theorem text_cells (tall : 71 ≤ lfb.height) (color : Nat) (text : List UInt8) (c : Canvas) :
    (∀ cell ∈ (text.foldl (fun c chr => c.write lfb font color chr) c).cells,
        cell.OnScreen lfb) ↔
      (∀ cell ∈ c.cells, cell.OnScreen lfb) ∧ TextFits lfb c.cursor (textLines text) := by
  induction text generalizing c with
  | nil => simp [textLines, lineLengths, TextFits, LineFits]
  | cons chr rest ih =>
    rw [List.foldl_cons, ih]
    by_cases newline : chr = newlineChar
    · have lines : textLines (chr :: rest) = 0 :: textLines rest := by
        simp [textLines, lineLengths, newline]
      have empty : LineFits lfb c.cursor 0 := Or.inl rfl
      rw [lines, TextFits, write, if_pos newline]
      simp only [empty, true_and]
      exact Iff.rfl
    · have lines : textLines (chr :: rest) =
          ((lineLengths rest).1 + 1) :: (lineLengths rest).2 := by
        simp [textLines, lineLengths, newline]
      rw [lines, textLines, TextFits, TextFits, cells_write lfb font color c newline,
        List.forall_mem_cons, lineFits_succ lfb font tall color c newline,
        nextLine_succ lfb font tall color c newline]
      tauto

/-! ## Runs on screen -/

/-- The text of the call fits from the cursor before it. -/
def Op.Fits (c : Canvas) : Op → Prop
  | .kwrite str _ => TextFits lfb c.cursor (textLines str.text)
  | .clearScreen => True

def RunFits : Canvas → List Op → Prop
  | _, [] => True
  | c, op :: ops => op.Fits lfb c ∧ RunFits (op.run lfb font c) ops

theorem op_cells (tall : 71 ≤ lfb.height) (c : Canvas) (op : Op) :
    (∀ cell ∈ (op.run lfb font c).cells, cell.OnScreen lfb) ↔
      (∀ cell ∈ c.cells, cell.OnScreen lfb) ∧ op.Fits lfb c := by
  cases op with
  | kwrite str color =>
    rw [Op.run, kwrite_eq, text_cells lfb font tall]
    exact Iff.rfl
  | clearScreen => exact (and_iff_left trivial).symm

theorem runOps_cells (tall : 71 ≤ lfb.height) (ops : List Op) (c : Canvas) :
    (∀ cell ∈ (c.runOps lfb font ops).cells, cell.OnScreen lfb) ↔
      (∀ cell ∈ c.cells, cell.OnScreen lfb) ∧ RunFits lfb font c ops := by
  induction ops generalizing c with
  | nil => exact (and_iff_left trivial).symm
  | cons op ops ih =>
    rw [runOps, List.foldl_cons, ← runOps, ih, op_cells lfb font tall, RunFits, and_assoc]

/-! ## The pixels written -/

/-- The fields of a cursor are `unsigned int`s. -/
structure Words (c : Canvas) : Prop where
  x : c.x < 4294967296
  y : c.y < 4294967296
  prevX : c.prevX < 4294967296

theorem wrap_words {c : Canvas} (h : Words c) : Words (c.wrap lfb) := by
  unfold wrap
  split
  · exact ⟨h.x, by show 10 < 4294967296; omega, Nat.mod_lt _ (by omega)⟩
  · exact h

theorem write_words {c : Canvas} (h : Words c) (color : Nat) (chr : UInt8) :
    Words (c.write lfb font color chr) := by
  unfold write
  split
  · exact ⟨h.prevX, Nat.mod_lt _ (by omega), h.prevX⟩
  · have wrapped := wrap_words lfb h
    exact ⟨Nat.mod_lt _ (by omega), wrapped.y, wrapped.prevX⟩

theorem wrap_accesses (c : Canvas) : (c.wrap lfb).accesses = c.accesses := by
  unfold wrap
  split <;> rfl

/-- Every pixel written belongs to a recorded cell. -/
structure Recorded (c : Canvas) : Prop where
  words : c.Words
  inCell : ∀ px py color, .write px py color ∈ c.accesses →
    ∃ cell ∈ c.cells, (cell.xOff ≤ px ∧ px < cell.xOff + 8) ∧
      cell.yOff ≤ py ∧ py < cell.yOff + 16

theorem write_recorded {c : Canvas} (h : Recorded c) (color : Nat) (chr : UInt8) :
    Recorded (c.write lfb font color chr) := by
  refine ⟨write_words lfb font h.words color chr, fun px py hue written => ?_⟩
  by_cases newline : chr = newlineChar
  · rw [write, if_pos newline] at written ⊢
    exact h.inCell px py hue written
  · have wrapped := wrap_words lfb h.words
    have writes := mem_putChar_write font color chr wrapped.x wrapped.y px py hue c.accesses
    rw [write, if_neg newline, draw, wrap_accesses] at written
    rw [cells_write lfb font color c newline]
    rcases writes.mp written with old | ⟨ink, _⟩
    · obtain ⟨cell, listed, inside⟩ := h.inCell px py hue old
      exact ⟨cell, List.mem_cons_of_mem _ listed, inside⟩
    · exact ⟨_, List.mem_cons_self, ink.column, ink.row⟩

theorem foldl_recorded (color : Nat) (text : List UInt8) {c : Canvas} (h : Recorded c) :
    Recorded (text.foldl (fun c chr => c.write lfb font color chr) c) := by
  induction text generalizing c with
  | nil => exact h
  | cons chr rest ih => exact ih (write_recorded lfb font h color chr)

theorem runOps_recorded (ops : List Op) {c : Canvas} (h : Recorded c) :
    Recorded (c.runOps lfb font ops) := by
  induction ops generalizing c with
  | nil => exact h
  | cons op ops ih =>
    apply ih
    cases op with
    | kwrite str color =>
      simp only [Op.run, kwrite_eq]
      exact foldl_recorded lfb font color str.text h
    | clearScreen =>
      exact ⟨⟨by show 0 < 4294967296; omega, by show 55 < 4294967296; omega,
        by show 0 < 4294967296; omega⟩, h.inCell⟩

/-- When every text fits, every pixel written is on the screen. -/
theorem pixels_on_screen (tall : 71 ≤ lfb.height) {ops : List Op}
    (fits : RunFits lfb font canvas ops) {px py color : Nat}
    (written : .write px py color ∈ (canvas.runOps lfb font ops).accesses) :
    px < lfb.width ∧ py < lfb.height := by
  have start : Recorded canvas :=
    ⟨⟨by decide, by decide, by decide⟩, fun _ _ _ none => absurd none List.not_mem_nil⟩
  have cells := (runOps_cells lfb font tall ops canvas).mpr
    ⟨fun _ none => absurd none List.not_mem_nil, fits⟩
  obtain ⟨cell, listed, ⟨left, right⟩, top, bottom⟩ :=
    (runOps_recorded lfb font ops start).inCell px py color written
  exact cells cell listed px py left right top bottom

/-- **The console stays on screen exactly when every text it is given fits.** -/
theorem console_iff (tall : 71 ≤ lfb.height) (ops : List Op) :
    (∀ cell ∈ (canvas.runOps lfb font ops).cells, cell.OnScreen lfb) ↔
      RunFits lfb font canvas ops := by
  rw [runOps_cells lfb font tall]
  exact and_iff_right (fun _ none => absurd none List.not_mem_nil)

/-- A font of 16 rows a character. -/
def blankFont : Psf1Font where
  header := ⟨0x36, 0x04, 0, 16⟩
  glyph := fun _ => 0

/-- `n` letters in one line. -/
def letters (n : Nat) (short : n < 9223372036854775808) : CString where
  bytes := List.replicate n 0x41
  noNul := by
    rw [List.mem_replicate]
    rintro ⟨_, same⟩
    exact absurd same (by decide)
  fits := by rwa [List.length_replicate]

theorem console_iff_hello :
    (∀ cell ∈ (canvas.runOps vga blankFont [.kwrite (letters 5 (by decide)) 0xFFFFFF]).cells,
        cell.OnScreen vga) ↔
      RunFits vga blankFont canvas [.kwrite (letters 5 (by decide)) 0xFFFFFF] :=
  console_iff vga blankFont (by decide) _

/-- A line of 81 letters runs off a VGA screen. -/
theorem long_line_off_screen :
    ¬ ∀ cell ∈ (canvas.runOps vga blankFont [.kwrite (letters 81 (by decide)) 0xFFFFFF]).cells,
      cell.OnScreen vga := by
  rw [runOps_cells vga blankFont (by decide)]
  rintro ⟨_, fits, _⟩
  have text : (letters 81 (by decide)).text = List.replicate 81 0x41 :=
    List.take_of_length_le (by simp [letters])
  have lines : textLines (List.replicate 81 0x41) = [81] := by decide
  simp only [Op.Fits, text, lines, TextFits, LineFits, cursor, canvas, vga] at fits
  omega

end Canvas

end KessOS
