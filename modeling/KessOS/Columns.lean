import KessOS.Console

/-!
# Columns of text

Past the bottom of the screen the text goes on in a new column, 300 pixels to
the right. Nothing ends a line at the edge of its column, and the first line of
a new column starts in the old one.

* `Layout`: where the cells drawn lie, seen from the cursor;
* `cells_apart`: as long as no line runs into a column that is begun later, no
  character is drawn over an earlier one.
-/

namespace KessOS

/-- The pixels of a cell. -/
def Cell.Covers (cell : Cell) (px py : Nat) : Prop :=
  (cell.xOff ≤ px ∧ px < cell.xOff + 8) ∧ cell.yOff ≤ py ∧ py < cell.yOff + 16

/-- Two cells share no pixel. -/
def Cell.Apart (a b : Cell) : Prop := ∀ px py, ¬ (a.Covers px py ∧ b.Covers px py)

instance : Std.Symm Cell.Apart where
  symm _ _ apart := fun px py both => apart px py both.symm

namespace Canvas

variable (lfb : Framebuffer) (font : Psf1Font)

/-- The canvas after it was cleared, with no cells recorded since. -/
def cleared (c : Canvas) : Canvas := { c.clearScreen with cells := [], accesses := [] }

/-- Calls of `kwrite`, each with its colour. -/
def writeCalls (c : Canvas) (calls : List (CString × Nat)) : Canvas :=
  calls.foldl (fun c call => c.kwrite lfb font call.1 call.2) c

/-- Before a character: the numbers do not wrap, and where it begins a new column
nothing drawn so far reaches into that column, nor the top line of the last
column into the one that begins here. -/
def Clear (c : Canvas) (chr : UInt8) : Prop :=
  if chr = newlineChar then c.y + 20 < 4294967296
  else lfb.height ≤ c.y → c.prevX + 300 < 4294967296 ∧ ∀ cell ∈ c.cells,
    cell.xOff + 8 ≤ c.prevX + 300 ∧ (cell.yOff = 10 → cell.xOff + 8 ≤ c.prevX)

instance (c : Canvas) (chr : UInt8) : Decidable (Clear lfb c chr) :=
  inferInstanceAs (Decidable (if chr = newlineChar then c.y + 20 < 4294967296
    else lfb.height ≤ c.y → c.prevX + 300 < 4294967296 ∧ ∀ cell ∈ c.cells,
      cell.xOff + 8 ≤ c.prevX + 300 ∧ (cell.yOff = 10 → cell.xOff + 8 ≤ c.prevX)))

/-- This holds before every character of a text. -/
def TextClear (color : Nat) : Canvas → List UInt8 → Prop
  | _, [] => True
  | c, chr :: rest => Clear lfb c chr ∧ TextClear color (c.write lfb font color chr) rest

instance decidableTextClear (color : Nat) :
    (c : Canvas) → (text : List UInt8) → Decidable (TextClear lfb font color c text)
  | _, [] => isTrue trivial
  | c, chr :: rest =>
    have := decidableTextClear color (c.write lfb font color chr) rest
    inferInstanceAs (Decidable (_ ∧ _))

def CallsClear : Canvas → List (CString × Nat) → Prop
  | _, [] => True
  | c, call :: calls =>
    TextClear lfb font call.2 c call.1.text ∧ CallsClear (c.kwrite lfb font call.1 call.2) calls

/-! ## Where the cells lie -/

/-- A cell is to the left on the line of the cursor, or on a line of the column
above it, or to the left of the column. The top line, which starts in the old
column, has only lower cells there. -/
def Placed (c : Canvas) (cell : Cell) : Prop :=
  (cell.yOff = c.y ∧ cell.xOff + 8 ≤ c.x) ∨ cell.yOff + 20 ≤ c.y ∨
    (cell.xOff + 8 ≤ c.prevX ∧ (c.y = 10 → 30 ≤ cell.yOff))

structure Layout (c : Canvas) : Prop where
  apart : c.cells.Pairwise Cell.Apart
  placed : ∀ cell ∈ c.cells, Placed c cell
  rows : ∀ cell ∈ c.cells, cell.yOff = 10 ∨ 30 ≤ cell.yOff
  line : c.y = 10 ∨ (30 ≤ c.y ∧ c.prevX ≤ c.x)
  below : lfb.height ≤ c.y → c.x = c.prevX

variable {lfb}

theorem newline_layout {c : Canvas} (h : Layout lfb c) (top : c.y + 20 < 4294967296) :
    Layout lfb c.newline := by
  have line := h.line
  have next : (c.y + 20) % 4294967296 = c.y + 20 := Nat.mod_eq_of_lt top
  simp only [newline, next]
  constructor
  · exact h.apart
  · intro cell listed
    have placed := h.placed cell listed
    unfold Placed at placed ⊢
    dsimp only
    omega
  · exact h.rows
  · dsimp only
    omega
  · intro _
    rfl

/-- A new column begins. -/
theorem wrap_layout (tall : 100 ≤ lfb.height) {c : Canvas} (h : Layout lfb c)
    (clear : lfb.height ≤ c.y → c.prevX + 300 < 4294967296 ∧ ∀ cell ∈ c.cells,
      cell.xOff + 8 ≤ c.prevX + 300 ∧ (cell.yOff = 10 → cell.xOff + 8 ≤ c.prevX)) :
    Layout lfb (c.wrap lfb) := by
  unfold wrap
  split
  · next past =>
    obtain ⟨word, reach⟩ := clear past
    have start := h.below past
    rw [Nat.mod_eq_of_lt word]
    constructor
    · exact h.apart
    · intro cell listed
      obtain ⟨column, topLine⟩ := reach cell listed
      have rows := h.rows cell listed
      unfold Placed
      dsimp only
      omega
    · exact h.rows
    · exact Or.inl rfl
    · intro low
      dsimp only at low
      omega
  · exact h

theorem draw_layout {c : Canvas} (h : Layout lfb c) (color : Nat) (chr : UInt8)
    (onScreen : Cell.OnScreen lfb ⟨chr, c.x, c.y⟩) :
    Layout lfb (c.draw font color chr) := by
  have right := (onScreen_iff lfb _).mp onScreen
  have word := lfb.ppslWord
  have wide := lfb.fits
  have line := h.line
  dsimp only at right
  have next : (c.x + 8) % 4294967296 = c.x + 8 := Nat.mod_eq_of_lt (by omega)
  simp only [draw, next]
  constructor
  · constructor
    · intro cell listed px py both
      obtain ⟨⟨column, row⟩, column', row'⟩ := both
      have placed := h.placed cell listed
      unfold Placed at placed
      dsimp only at column row
      omega
    · exact h.apart
  · intro cell listed
    rcases List.mem_cons.mp listed with rfl | earlier
    · exact Or.inl ⟨rfl, Nat.le_refl _⟩
    · have placed := h.placed cell earlier
      unfold Placed at placed ⊢
      dsimp only
      omega
  · intro cell listed
    rcases List.mem_cons.mp listed with rfl | earlier
    · dsimp only
      omega
    · exact h.rows cell earlier
  · dsimp only
    omega
  · intro low
    dsimp only at low
    omega

theorem write_layout (tall : 100 ≤ lfb.height) {c : Canvas} (h : Layout lfb c) (color : Nat)
    {chr : UInt8} (clear : Clear lfb c chr)
    (onScreen : ∀ cell ∈ (c.write lfb font color chr).cells, cell.OnScreen lfb) :
    Layout lfb (c.write lfb font color chr) := by
  unfold Clear at clear
  by_cases newline : chr = newlineChar
  · rw [if_pos newline] at clear
    rw [write, if_pos newline]
    exact newline_layout h clear
  · rw [if_neg newline] at clear
    rw [cells_write lfb font color c newline] at onScreen
    rw [write, if_neg newline]
    exact draw_layout font (wrap_layout tall h clear) color chr (onScreen _ List.mem_cons_self)

/-! ## Runs -/

variable (lfb)

theorem write_cells_keep (color : Nat) (c : Canvas) (chr : UInt8) {cell : Cell}
    (listed : cell ∈ c.cells) : cell ∈ (c.write lfb font color chr).cells := by
  by_cases newline : chr = newlineChar
  · rw [write, if_pos newline]
    exact listed
  · rw [cells_write lfb font color c newline]
    exact List.mem_cons_of_mem _ listed

theorem text_cells_keep (color : Nat) (text : List UInt8) (c : Canvas) {cell : Cell}
    (listed : cell ∈ c.cells) :
    cell ∈ (text.foldl (fun c chr => c.write lfb font color chr) c).cells := by
  induction text generalizing c with
  | nil => exact listed
  | cons chr rest ih => exact ih _ (write_cells_keep lfb font color c chr listed)

theorem text_layout (tall : 100 ≤ lfb.height) (color : Nat) (text : List UInt8) {c : Canvas}
    (h : Layout lfb c) (clear : TextClear lfb font color c text)
    (onScreen : ∀ cell ∈ (text.foldl (fun c chr => c.write lfb font color chr) c).cells,
      cell.OnScreen lfb) :
    Layout lfb (text.foldl (fun c chr => c.write lfb font color chr) c) := by
  induction text generalizing c with
  | nil => exact h
  | cons chr rest ih =>
    obtain ⟨here, later⟩ := clear
    apply ih _ later onScreen
    apply write_layout font tall h color here
    intro cell listed
    exact onScreen cell (text_cells_keep lfb font color rest _ listed)

theorem calls_cells_keep (calls : List (CString × Nat)) (c : Canvas) {cell : Cell}
    (listed : cell ∈ c.cells) : cell ∈ (c.writeCalls lfb font calls).cells := by
  induction calls generalizing c with
  | nil => exact listed
  | cons call calls ih =>
    apply ih
    show cell ∈ (c.kwrite lfb font call.1 call.2).cells
    rw [kwrite_eq]
    exact text_cells_keep lfb font call.2 call.1.text c listed

theorem calls_layout (tall : 100 ≤ lfb.height) (calls : List (CString × Nat)) {c : Canvas}
    (h : Layout lfb c) (clear : CallsClear lfb font c calls)
    (onScreen : ∀ cell ∈ (c.writeCalls lfb font calls).cells, cell.OnScreen lfb) :
    Layout lfb (c.writeCalls lfb font calls) := by
  induction calls generalizing c with
  | nil => exact h
  | cons call calls ih =>
    obtain ⟨here, later⟩ := clear
    apply ih _ later onScreen
    have kept : ∀ cell ∈ (c.kwrite lfb font call.1 call.2).cells, cell.OnScreen lfb :=
      fun cell listed => onScreen cell (calls_cells_keep lfb font calls _ listed)
    rw [kwrite_eq] at kept ⊢
    exact text_layout lfb font tall call.2 call.1.text h here kept

/-- **No character is drawn over an earlier one** while the columns stay clear. -/
theorem cells_apart (tall : 100 ≤ lfb.height) (c : Canvas) {calls : List (CString × Nat)}
    (clear : CallsClear lfb font c.cleared calls)
    (onScreen : ∀ cell ∈ (c.cleared.writeCalls lfb font calls).cells, cell.OnScreen lfb) :
    (c.cleared.writeCalls lfb font calls).cells.Pairwise Cell.Apart := by
  have start : Layout lfb c.cleared := by
    constructor
    · exact List.Pairwise.nil
    · exact fun _ none => absurd none List.not_mem_nil
    · exact fun _ none => absurd none List.not_mem_nil
    · exact Or.inr ⟨show 30 ≤ 55 by decide, Nat.le_refl _⟩
    · exact fun _ => rfl
  exact (calls_layout lfb font tall calls start clear onScreen).apart

/-- A line, an empty rest of the column, and two lines of the next one. -/
def twoColumns : CString where
  bytes := List.replicate 3 0x41 ++ List.replicate 22 0x0a ++ [0x42, 0x42, 0x0a, 0x43]
  noNul := by decide
  fits := by decide

theorem cells_apart_hello :
    (canvas.cleared.writeCalls vga blankFont [(twoColumns, 0xFFFFFF),
      (letters 5 (by decide), 0x00FF00)]).cells.Pairwise Cell.Apart := by
  have columns : twoColumns.text = twoColumns.bytes := CString.text_of_short (by decide)
  have hello : (letters 5 (by decide)).text = List.replicate 5 0x41 :=
    CString.text_of_short (by decide)
  apply cells_apart vga blankFont (by decide) canvas
  · refine ⟨?_, ?_, trivial⟩
    · rw [columns]
      decide +kernel
    · rw [kwrite_eq, columns, hello]
      decide +kernel
  · simp only [onScreen_iff, writeCalls, List.foldl_cons, List.foldl_nil, kwrite_eq, columns, hello]
    decide +kernel

/-- A line of 40 letters, and text in the next column at its height. -/
def longLine : CString where
  bytes := List.replicate 40 0x41 ++ List.replicate 22 0x0a ++ [0x42, 0x0a, 0x0a, 0x43]
  noNul := by decide
  fits := by decide

/-- Everything is on the screen, and the last letter is drawn over the long line. -/
theorem longLine_overwritten :
    (∀ cell ∈ (canvas.cleared.writeCalls vga blankFont [(longLine, 0xFFFFFF)]).cells,
        cell.OnScreen vga) ∧
      ¬ (canvas.cleared.writeCalls vga blankFont [(longLine, 0xFFFFFF)]).cells.Pairwise
        Cell.Apart := by
  have text : longLine.text = longLine.bytes := CString.text_of_short (by decide)
  rw [writeCalls, List.foldl_cons, List.foldl_nil, kwrite_eq, text]
  constructor
  · simp only [onScreen_iff]
    decide +kernel
  · intro apart
    have last : ⟨0x43, 300, 50⟩ ∈ (longLine.bytes.foldl
        (fun c chr => c.write vga blankFont 0xFFFFFF chr) canvas.cleared).cells := by decide +kernel
    have long : ⟨0x41, 304, 55⟩ ∈ (longLine.bytes.foldl
        (fun c chr => c.write vga blankFont 0xFFFFFF chr) canvas.cleared).cells := by decide +kernel
    have disjoint := apart.forall last long (by decide)
    exact disjoint 304 55 ⟨⟨by decide, by decide⟩, ⟨by decide, by decide⟩⟩

end Canvas

end KessOS
