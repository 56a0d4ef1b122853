import KessOS.Legible
import KessOS.StackDump

/-!
# The panic screen

Every exception handler is the macro `panic` with its vector: it clears the
screen, logs what happened and the top of the stack, and halts.

* `panic_type`: what it logs;
* `panic_shows`: what is on the screen then, whatever was there before.
-/

namespace KessOS

def panicmsg1 : CString := .literal
  ("\nWhoops! I've encountered an issue. Below is some debug information " ++
    "to help understand what happened.\n")

def panicmsg2 : CString := .literal "\nVECTOR FIRED: "

def panicmsg3 : CString := .literal "\n<==== STACK DUMP BELOW ====>\n\n"

def newline : CString := .literal "\n"

/-- The vectors with a handler. -/
def panicVectors : List Nat := [0x0, 0x1, 0x4, 0x5, 0x6, 0x7, 0x8, 0xA, 0xB, 0xC, 0xD, 0xE]

namespace Printer

variable (lfb : Framebuffer) (font : Psf1Font) (m : Mem)

/-- `call hex2str`, whose result is the format of the next `log`. -/
def logHex (n : Nat) (s : Printer) : Option Printer :=
  let buf := hex2str s.hexString n
  { s with hexString := buf }.log lfb font (.ofBuffer buf) none []

/-- The macro behind `clearScreen`, up to `cli`. -/
def panic (vector rsp : Nat) (s : Printer) : Option Printer :=
  (s.log lfb font panicmsg1 (some .panic) []).bind fun s =>
    (s.log lfb font panicmsg2 none []).bind fun s =>
      (s.logHex lfb font vector).bind fun s =>
        (s.log lfb font newline none []).bind fun s =>
          (s.log lfb font panicmsg3 none []).bind fun s => dumpStack lfb font m rsp s

end Printer

/-- The text, the first part of it red. -/
def panicText (m : Mem) (vector rsp : Nat) : Typed :=
  colored 0xFF0000 ((statusPrefix .panic).bytes ++ panicmsg1.bytes) ++
    colored 0xFFFFFF (panicmsg2.bytes ++ hexText vector ++ newline.bytes ++ panicmsg3.bytes ++
      (rule.bytes ++ title.bytes ++ (dumpedLines m rsp 5).flatten ++ rule.bytes))

/-! ## What is logged -/

/-- A format without `%` is written as it is. -/
theorem expand_literal {text : List UInt8} (plain : ascii '%' ∉ text) (args : List Arg) :
    specifiers text = [] ∧ expand text args = text := by
  induction text with
  | nil => exact ⟨rfl, rfl⟩
  | cons c rest ih =>
    obtain ⟨char, later⟩ := List.mem_cons.not.mp plain |> not_or.mp
    cases rest with
    | nil => exact ⟨rfl, rfl⟩
    | cons next rest =>
      obtain ⟨none, same⟩ := ih later
      have ordinary : specifier c next = Option.none := by
        rw [specifier, if_neg (Ne.symm char)]
      constructor
      · rw [specifiers, ordinary]
        exact none
      · rw [expand_plain ordinary, same]

namespace Printer

variable (lfb : Framebuffer) (font : Psf1Font)

/-- A call of `log` without arguments. -/
theorem log_literal (format : CString) (status : Option Status)
    (plain : ascii '%' ∉ format.bytes) (counted : format.bytes.length < 2147483648) (s : Printer) :
    ∃ s', s.log lfb font format status [] = some s' ∧
      s'.canvas = s.canvas.typed lfb font
        (colored (statusColor status) (prefixText status ++ format.bytes)) := by
  obtain ⟨none, same⟩ := expand_literal plain []
  have matched : Matches format.bytes [] := by
    rw [Matches, none]
    exact .nil
  obtain ⟨s', run, _, canvas⟩ := log_type lfb font status matched counted
    (fun str listed => absurd listed List.not_mem_nil) s []
  refine ⟨s', run, ?_⟩
  rw [canvas, same, Canvas.typed_colored]
  rfl

theorem logHex_type {n : Nat} (word : n < 4294967296) (s : Printer) :
    ∃ s', s.logHex lfb font n = some s' ∧
      s'.canvas = s.canvas.typed lfb font (colored 0xFFFFFF (hexText n)) := by
  have text : (CString.ofBuffer (hex2str s.hexString n)).bytes = hexText n :=
    hex2str_text s.hexString word
  have length : (CString.ofBuffer (hex2str s.hexString n)).bytes.length ≤ 80 :=
    length_textFrom _ 0 80
  obtain ⟨s', run, canvas⟩ := log_literal lfb font _ none (text ▸ hexText_plain n) (by omega)
    { s with hexString := hex2str s.hexString n }
  refine ⟨s', run, ?_⟩
  rw [canvas, text]
  rfl

/-- **What the macro logs.** -/
theorem panic_type (m : Mem) {vector rsp : Nat} (word : vector < 4294967296)
    (address : rsp < 18446744073709551616) (s : Printer) :
    ∃ s', s.panic lfb font m vector rsp = some s' ∧
      s'.canvas = s.canvas.typed lfb font (panicText m vector rsp) := by
  obtain ⟨s₁, run₁, canvas₁⟩ := log_literal lfb font panicmsg1 (some .panic) (by decide)
    (by decide) s
  obtain ⟨s₂, run₂, canvas₂⟩ := log_literal lfb font panicmsg2 none (by decide)
    (by decide) s₁
  obtain ⟨s₃, run₃, canvas₃⟩ := logHex_type lfb font word s₂
  obtain ⟨s₄, run₄, canvas₄⟩ := log_literal lfb font newline none (by decide)
    (by decide) s₃
  obtain ⟨s₅, run₅, canvas₅⟩ := log_literal lfb font panicmsg3 none (by decide)
    (by decide) s₄
  obtain ⟨s₆, run₆, canvas₆⟩ := dumpStack_type lfb font m address s₅
  refine ⟨s₆, ?_, ?_⟩
  · rw [panic, run₁, Option.bind_some, run₂, Option.bind_some, run₃, Option.bind_some, run₄,
      Option.bind_some, run₅, Option.bind_some, run₆]
  · rw [canvas₆, type, ← Canvas.typed_colored, canvas₅, canvas₄, canvas₃, canvas₂, canvas₁]
    simp only [← Canvas.typed_append, panicText, colored_append, List.append_assoc]
    rfl

end Printer

/-! ## Lines -/

open Screen (Lines ascii_of_all)

theorem dumpLine_lines (m : Mem) (rsp : Nat) : Lines 192 1 (dumpLine m rsp) := by
  have first := length_hexText (Nat.mod_lt rsp (show 0 < 4294967296 by omega))
  have second := length_hexText (Nat.mod_lt (u32 (charValue (m rsp)))
    (show 0 < 4294967296 by omega))
  rw [dumpLine_eq, ← List.append_assoc, ← List.append_assoc]
  apply Screen.lines_line
  · simp only [List.mem_append, hexText_line, or_false, false_or]
    decide
  · simp only [List.length_append]
    have arrow : (" => ".toList.map ascii).length = 4 := by decide
    omega
  · simp only [List.forall_mem_append]
    exact ⟨⟨hexText_ascii _, ascii_of_all (by decide)⟩, hexText_ascii _⟩

theorem dumpedLines_lines (m : Mem) (rsp n : Nat) : Lines 192 n (dumpedLines m rsp n).flatten := by
  induction n with
  | zero => exact ⟨trivial, rfl, rfl, fun c none => absurd none List.not_mem_nil⟩
  | succ n ih =>
    rw [dumpedLines, List.range_succ, List.map_append, List.flatten_append, List.map_singleton,
      List.flatten_singleton]
    exact ih.append (dumpLine_lines m _)

/-- The text has sixteen lines, the longest of them of 101 characters. -/
theorem panicText_lines (m : Mem) {vector : Nat} (rsp : Nat) (word : vector < 4294967296) :
    Lines 808 16 ((panicText m vector rsp).map Prod.fst) := by
  have label : panicmsg2.bytes = [Canvas.newlineChar] ++ panicmsg2.bytes.tail := by decide
  have parts : (panicText m vector rsp).map Prod.fst =
      (statusPrefix .panic).bytes ++ panicmsg1.bytes ++ [Canvas.newlineChar] ++
        (panicmsg2.bytes.tail ++ hexText vector ++ [Canvas.newlineChar]) ++ panicmsg3.bytes ++
        (rule.bytes ++ title.bytes) ++ (dumpedLines m rsp 5).flatten ++ rule.bytes := by
    have ending : newline.bytes = [Canvas.newlineChar] := by decide
    rw [panicText, List.map_append, fst_colored, fst_colored, label, ending]
    simp only [List.append_assoc, List.cons_append, List.nil_append, List.tail_cons]
  have greeting : Lines 808 4 ((statusPrefix .panic).bytes ++ panicmsg1.bytes ++
      [Canvas.newlineChar]) :=
    ⟨by decide +kernel, by decide +kernel, by decide +kernel, ascii_of_all (by decide +kernel)⟩
  have fired : Lines 808 1 (panicmsg2.bytes.tail ++ hexText vector ++ [Canvas.newlineChar]) := by
    have short := length_hexText word
    have length : panicmsg2.bytes.tail.length = 14 := by decide
    apply Screen.lines_line
    · simp only [List.mem_append, hexText_line, or_false]
      decide
    · rw [List.length_append]
      omega
    · exact List.forall_mem_append.mpr ⟨ascii_of_all (by decide), hexText_ascii vector⟩
  have below : Lines 808 3 panicmsg3.bytes := ⟨by decide, by decide, by decide, ascii_of_all (by decide)⟩
  have head : Lines 808 2 (rule.bytes ++ title.bytes) :=
    ⟨by decide, by decide, by decide, ascii_of_all (by decide)⟩
  have foot : Lines 808 1 rule.bytes := ⟨by decide, by decide, by decide, ascii_of_all (by decide)⟩
  have data := (dumpedLines_lines m rsp 5).mono (show 192 ≤ 808 by omega)
  rw [parts]
  exact ((((greeting.append fired).append below).append head).append data).append foot

theorem panicText_plain (m : Mem) {vector : Nat} (rsp : Nat) (word : vector < 4294967296) :
    ∀ k ∈ panicText m vector rsp, k.1.toNat < 128 ∧ k.2 < 4294967296 := by
  intro k listed
  refine ⟨(panicText_lines m rsp word).ascii k.1 (List.mem_map_of_mem listed), ?_⟩
  rcases List.mem_append.mp listed with red | white
  · rw [(mem_colored.mp red).2]
    omega
  · rw [(mem_colored.mp white).2]
    omega

theorem panicVectors_word {vector : Nat} (known : vector ∈ panicVectors) :
    vector < 4294967296 := by
  have all : ∀ v ∈ panicVectors, v < 4294967296 := by decide
  exact all vector known

/-! ## The screen -/

/-- A handler on a screen: `clearScreen`, and what the macro logs from there on.
The stack is in `m`. -/
def Screen.panic (lfb : Framebuffer) (font : Psf1Font) (base : Nat) (m : Mem) (vector rsp : Nat)
    (decString hexString : Mem) (s : Screen) : Option Screen :=
  let s := s.clearScreen lfb base 0x39254D
  (Printer.panic lfb font m vector rsp ⟨start s.cursor, decString, hexString, []⟩).map fun p =>
    { cursor := p.canvas.cursor
      mem := storePixels base s.mem (pixelWrites lfb p.canvas.accesses) }

/-- A screen of 1280 by 800 pixels. -/
def wideScreen : Framebuffer where
  width := 1280
  height := 800
  ppsl := 1280
  fits := Nat.le_refl _
  heightWord := by decide
  ppslWord := by decide

/-- **Whatever was on the screen, a handler shows its vector and the stack**, on
a screen that is wide enough for the longest line. -/
theorem panic_shows {lfb : Framebuffer} (font : Psf1Font) {base : Nat} (wide : 808 ≤ lfb.width)
    (tall : 391 ≤ lfb.height) (slim : lfb.ppsl < 1073741824) (short : lfb.height < 2147483648)
    (fits : base + 4 * (lfb.height * lfb.ppsl) < 18446744073709551616) {vector rsp : Nat}
    (known : vector ∈ panicVectors) (address : rsp < 18446744073709551616)
    (m decString hexString : Mem) (s : Screen) :
    ∃ s', s.panic lfb font base m vector rsp decString hexString = some s' ∧
      Pixels.Shows lfb font (Canvas.typedLetters lfb font Screen.home (panicText m vector rsp))
        (fun _ => 0x39254D) (pixelsOf base s'.mem) := by
  have word := panicVectors_word known
  have lines := (panicText_lines m rsp word).mono wide
  obtain ⟨p, run, canvas⟩ := Printer.panic_type lfb font m word address
    ⟨Screen.start (s.clearScreen lfb base 0x39254D).cursor, decString, hexString, []⟩
  have plain := panicText_plain m rsp word
  have shows := Screen.column_shows font base (by omega) slim short fits s
    (show 0x39254D < 4294967296 by omega) plain lines.narrow (by rw [lines.count]; omega)
  refine ⟨_, by rw [Screen.panic, run]; rfl, ?_⟩
  dsimp only
  rw [canvas]
  exact shows

/-- A page fault with the stack at the end of a page, on a wide screen. -/
theorem panic_shows_fault :
    ∃ s', Screen.panic wideScreen Canvas.blankFont 0xC0000000 (fun _ => 0) 0xE 0x201FF0 (fun _ => 0)
        (fun _ => 0) ⟨⟨0, 55, 0⟩, fun _ => 0⟩ = some s' ∧
      Pixels.Shows wideScreen Canvas.blankFont
        (Canvas.typedLetters wideScreen Canvas.blankFont Screen.home
          (panicText (fun _ => 0) 0xE 0x201FF0))
        (fun _ => 0x39254D) (pixelsOf 0xC0000000 s'.mem) :=
  panic_shows Canvas.blankFont (by decide) (by decide) (by decide) (by decide) (by decide)
    (by decide) (by decide) _ _ _ _

end KessOS
