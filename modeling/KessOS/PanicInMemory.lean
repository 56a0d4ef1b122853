import KessOS.ConsoleCalls

/-!
# The panic over memory

A handler reads its texts, the stack and the text of its vector from the memory
in which it draws. That last text lies in the static buffer of `hex2str` and is
the format of a `log`.

* `Types`: a routine writes a text, wherever the cursor is;
* `panic_legible`: the screen shows the vector and what was on the stack, and
  nothing else is written.
-/

namespace KessOS.InMemory

open Mem (span AgreeOff Avoids)

/-! ## The handler -/

/-- Where the texts of the macro and of `dump_stack` are. -/
structure Texts where
  panicmsg1 : Nat
  panicmsg2 : Nat
  panicmsg3 : Nat
  newline : Nat
  rule : Nat
  title : Nat
  lineFormat : Nat

namespace Objects

variable (o : Objects)

/-- A call whose caller goes on behind it. -/
def logged (format : Nat) (status : Option Status) (args : List Nat) (m : Mem) : Option Mem :=
  (o.log format status args m).map Prod.snd

/-- `call hex2str`, whose result is the format of the next `log`. -/
def logHex (n : Nat) (m : Mem) : Option Mem := o.logged o.hexString none [] (o.hex2str n m)

def dumpLines (lineFormat : Nat) : Nat → Nat → Mem → Option Mem
  | 0, _, m => some m
  | n + 1, rsp, m =>
    (o.logged lineFormat none [rsp, u32 (charValue (m rsp))] m).bind
      (dumpLines lineFormat n ((rsp + 1) % 18446744073709551616))

def dumpStack (t : Texts) (rsp : Nat) (m : Mem) : Option Mem :=
  (o.logged t.rule none [] m).bind fun m =>
    (o.logged t.title none [] m).bind fun m =>
      (o.dumpLines t.lineFormat 5 rsp m).bind fun m => o.logged t.rule none [] m

/-- The macro up to `cli`. -/
def panic (t : Texts) (vector rsp : Nat) (m : Mem) : Option Mem :=
  (o.logged t.panicmsg1 (some .panic) [] (clearScreen o.canvas 0x39254D m)).bind fun m =>
    (o.logged t.panicmsg2 none [] m).bind fun m =>
      (o.logHex vector m).bind fun m =>
        (o.logged t.newline none [] m).bind fun m =>
          (o.logged t.panicmsg3 none [] m).bind fun m => o.dumpStack t rsp m

end Objects

structure Texts.Placed (t : Texts) (W : Set Nat) (m : Mem) : Prop where
  panicmsg1 : StringAt W m t.panicmsg1 KessOS.panicmsg1
  panicmsg2 : StringAt W m t.panicmsg2 KessOS.panicmsg2
  panicmsg3 : StringAt W m t.panicmsg3 KessOS.panicmsg3
  newline : StringAt W m t.newline KessOS.newline
  rule : StringAt W m t.rule KessOS.rule
  title : StringAt W m t.title KessOS.title
  lineFormat : StringAt W m t.lineFormat KessOS.lineFormat

/-! ## What it types -/

/-- A routine types a text, wherever the cursor is, if what it draws fits. -/
def Types (o : Objects) (lfb : Framebuffer) (font : Psf1Font) (m₀ : Mem) (f : Mem → Option Mem)
    (text : Typed) : Prop :=
  ∀ (m mem : Mem) (c : Canvas),
    (∀ a ∈ (c.typed lfb font text).accesses, Fits o lfb font (o.written lfb) m₀ a) →
    Holds o (o.written lfb) m₀ m (shown o lfb mem c) →
    ∃ m', f m = some m' ∧
      Holds o (o.written lfb) m₀ m' (shown o lfb mem (c.typed lfb font text))

section
variable {o : Objects} {lfb : Framebuffer} {font : Psf1Font} {m₀ : Mem}

theorem Types.append {f g : Mem → Option Mem} {a b : Typed} (hf : Types o lfb font m₀ f a)
    (hg : Types o lfb font m₀ g b) :
    Types o lfb font m₀ (fun m => (f m).bind fun m => g m) (a ++ b) := by
  intro m mem c fits h
  rw [KessOS.Canvas.typed_append] at fits ⊢
  obtain ⟨m₁, first, held⟩ :=
    hf m mem c (fun x listed => fits x (Canvas.typed_accesses_mono lfb font b listed)) h
  obtain ⟨m', later, result⟩ := hg m₁ mem _ fits held
  refine ⟨m', ?_, result⟩
  dsimp only
  rw [first]
  exact later

variable (apart : o.Apart lfb) (placed : o.Placed lfb font (o.written lfb) m₀)
include apart placed

/-- A number in the static buffer as a format. -/
theorem logHex_types (away : Avoids (span o.hexString 80) (span o.terminated 2)) {n : Nat}
    (word : n < 4294967296) :
    Types o lfb font m₀ (o.logHex n) (colored 0xFFFFFF (hexText n)) := by
  intro m mem c fits h
  have buffer : span o.hexString 80 ⊆ o.buffers :=
    Set.subset_union_right.trans Set.subset_union_left
  have text : (CString.ofBuffer (hex2str (fun i => m (o.hexString + i)) n)).bytes = hexText n :=
    hex2str_text _ word
  have length : (hexText n).length < 80 := Nat.lt_of_le_of_lt (length_hexText word) (by omega)
  have plain := hexText_plain n
  rw [← text] at plain
  have counted : (CString.ofBuffer (hex2str (fun i => m (o.hexString + i)) n)).bytes.length <
      2147483648 := by
    rw [text]
    omega
  obtain ⟨p, run, typed⟩ := Printer.log_literal lfb font _ none plain counted
    ⟨c, fun _ => 0, fun _ => 0, []⟩
  rw [text] at typed
  replace typed : p.canvas = c.typed lfb font (colored 0xFFFFFF (hexText n)) := typed
  rw [← typed] at fits
  have string : StringAt (o.touched lfb ∪ span o.terminated 2) (o.hex2str n m) o.hexString
      (.ofBuffer (hex2str (fun i => m (o.hexString + i)) n)) := by
    apply ofBuffer_at m _ apart.hexString
    · intro a listed written
      rcases written with touched | array
      · exact apart.buffers a (buffer listed) touched
      · exact away a listed array
    · rw [hex2str_text _ word]
      exact length
  have held := h.buffer apart (Mem.blit_agree m buffer
    (KessOS.hex2str (fun i => m (o.hexString + i)) n))
  obtain ⟨m', scan, result⟩ :=
    plain_holds apart placed plain counted (statusColor none) fits
      (p := ⟨c, fun _ => 0, fun _ => 0, []⟩) string held run
  rw [typed] at result
  refine ⟨m', ?_, result⟩
  show (o.scan o.hexString (statusColor none) intFuel 0 [] (o.hex2str n m)).map Prod.snd = some m'
  rw [scan]
  rfl

variable
  (label : ∀ status, StringAt (o.written lfb) m₀ (o.label status) (statusPrefix status))
include label

/-- A call of `log` without arguments. -/
theorem logged_types {format : CString} {ptr : Nat}
    (string : StringAt (o.written lfb) m₀ ptr format) (plain : ascii '%' ∉ format.bytes)
    (counted : format.bytes.length < 2147483648) (status : Option Status) :
    Types o lfb font m₀ (o.logged ptr status [])
      (colored (statusColor status) (prefixText status ++ format.bytes)) := by
  intro m mem c fits h
  obtain ⟨none, same⟩ := expand_literal plain []
  have matched : Matches format.bytes [] := by
    rw [Matches, none]
    exact .nil
  rw [← same] at fits ⊢
  exact log_text apart placed label string counted status .nil matched
    (fun str listed => absurd listed List.not_mem_nil) fits h

/-- The lines of the stack. -/
theorem dumpLines_types {ptr : Nat} (string : StringAt (o.written lfb) m₀ ptr lineFormat) {n : Nat}
    {rsp : Nat} (word : rsp < 18446744073709551616)
    (stack : ∀ i, i < n → lineAddress rsp i ∉ o.written lfb) :
    Types o lfb font m₀ (o.dumpLines ptr n rsp)
      (colored 0xFFFFFF (dumpedLines m₀ rsp n).flatten) := by
  induction n generalizing rsp with
  | zero =>
    intro m mem c fits h
    exact ⟨m, rfl, h⟩
  | succ n ih =>
    have shift (i : Nat) : lineAddress ((rsp + 1) % 18446744073709551616) i =
        lineAddress rsp (i + 1) := by
      unfold lineAddress
      omega
    have rest := ih (Nat.mod_lt (rsp + 1) (by omega)) fun i hi => by
      rw [shift]
      exact stack (i + 1) (by omega)
    have first : lineAddress rsp 0 = rsp := Nat.mod_eq_of_lt word
    have outside : rsp ∉ o.written lfb := first ▸ stack 0 (by omega)
    have matched : Matches lineFormat.bytes (lineArgs m₀ rsp) :=
      .cons (show Arg.Fits .hex (.word _) from trivial)
        (.cons (show Arg.Fits .hex (.word _) from trivial) .nil)
    have line : Types o lfb font m₀
        (fun m => o.logged ptr none [rsp, u32 (charValue (m rsp))] m)
        (colored 0xFFFFFF (dumpLine m₀ rsp)) := by
      intro m mem c fits h
      dsimp only
      rw [← h.frame outside]
      have given : List.Forall₂ (ArgAt (o.written lfb) m₀) (lineArgs m₀ rsp)
          [rsp, u32 (charValue (m₀ rsp))] := .cons rfl (.cons rfl .nil)
      exact log_text apart placed label string (by decide) none given matched (by simp [lineArgs])
        fits h
    rw [dumpedLines_succ m₀ word, List.flatten_cons, colored_append]
    exact line.append rest

variable {t : Texts} (texts : t.Placed (o.written lfb) m₀) {rsp : Nat}
  (word : rsp < 18446744073709551616) (stack : ∀ i, i < 5 → lineAddress rsp i ∉ o.written lfb)
include texts word stack

theorem dumpStack_types : Types o lfb font m₀ (o.dumpStack t rsp) (colored 0xFFFFFF
    (rule.bytes ++ title.bytes ++ (dumpedLines m₀ rsp 5).flatten ++ rule.bytes)) := by
  have ruled := logged_types apart placed label texts.rule (by decide) (by decide) none
  have titled := logged_types apart placed label texts.title (by decide) (by decide) none
  have lines := dumpLines_types apart placed label texts.lineFormat word stack
  have all := ruled.append (titled.append (lines.append ruled))
  have same : colored 0xFFFFFF
      (rule.bytes ++ title.bytes ++ (dumpedLines m₀ rsp 5).flatten ++ rule.bytes) =
        colored 0xFFFFFF rule.bytes ++ (colored 0xFFFFFF title.bytes ++
          (colored 0xFFFFFF (dumpedLines m₀ rsp 5).flatten ++ colored 0xFFFFFF rule.bytes)) := by
    simp only [colored_append, List.append_assoc]
  rw [same]
  exact all

/-- **What the macro types**, behind `clearScreen`. -/
theorem panic_types (away : Avoids (span o.hexString 80) (span o.terminated 2)) {vector : Nat}
    (small : vector < 4294967296) :
    Types o lfb font m₀
      (fun m => (o.logged t.panicmsg1 (some .panic) [] m).bind fun m =>
        (o.logged t.panicmsg2 none [] m).bind fun m =>
          (o.logHex vector m).bind fun m =>
            (o.logged t.newline none [] m).bind fun m =>
              (o.logged t.panicmsg3 none [] m).bind fun m => o.dumpStack t rsp m)
      (panicText m₀ vector rsp) := by
  have first := logged_types apart placed label texts.panicmsg1 (by decide) (by decide) (some .panic)
  have second := logged_types apart placed label texts.panicmsg2 (by decide) (by decide) none
  have number := logHex_types apart placed away small
  have line := logged_types apart placed label texts.newline (by decide) (by decide) none
  have third := logged_types apart placed label texts.panicmsg3 (by decide) (by decide) none
  have dumped := dumpStack_types apart placed label texts word stack
  have all := first.append (second.append (number.append (line.append (third.append dumped))))
  have same : panicText m₀ vector rsp =
      colored 0xFF0000 ((statusPrefix .panic).bytes ++ KessOS.panicmsg1.bytes) ++
        (colored 0xFFFFFF KessOS.panicmsg2.bytes ++ (colored 0xFFFFFF (hexText vector) ++
          (colored 0xFFFFFF newline.bytes ++ (colored 0xFFFFFF KessOS.panicmsg3.bytes ++
            colored 0xFFFFFF (rule.bytes ++ title.bytes ++ (dumpedLines m₀ rsp 5).flatten ++
              rule.bytes))))) := by
    simp only [panicText, colored_append, List.append_assoc]
  rw [same]
  exact all

/-- **The panic is legible** where it is drawn into the memory it is read from:
the screen shows the message, the vector and the bytes of the stack as they
were, and no byte is written but the console's. -/
theorem panic_legible (glyphs : GlyphsAt o font (o.written lfb) m₀)
    (away : Avoids (span o.hexString 80) (span o.terminated 2)) (wide : 808 ≤ lfb.width)
    (tall : 391 ≤ lfb.height) (slim : lfb.ppsl < 1073741824) (short : lfb.height < 2147483648)
    {vector : Nat} (known : vector ∈ panicVectors) :
    ∃ m', o.panic t vector rsp m₀ = some m' ∧
      Pixels.Shows lfb font (Canvas.typedLetters lfb font Screen.home (panicText m₀ vector rsp))
        (fun _ => 0x39254D) (pixelsOf o.base m') ∧
      ∀ a, a ∉ o.written lfb → m' a = m₀ a := by
  have small := panicVectors_word known
  have lines := (panicText_lines m₀ rsp small).mono wide
  have plain := panicText_plain m₀ rsp small
  have room : 55 + 20 * Screen.newlines ((panicText m₀ vector rsp).map Prod.fst) + 16 ≤
      lfb.height := by
    rw [lines.count]
    omega
  have drawable := Screen.column_drawable font (by omega) plain lines.narrow room
  have touched : o.touched lfb ⊆ o.written lfb := Set.subset_union_left
  have screen : o.screen lfb ⊆ o.written lfb := Set.subset_union_right.trans touched
  have cleared := (clearScreen_holds placed apart screen slim short 0x39254D
    (s := ⟨o.cursor m₀, m₀⟩) ⟨rfl, .refl _ m₀, .refl _ m₀⟩).mono touched
  have fits := typed_fits glyphs (c := ⟨0, 55, 0⟩) Screen.home_words drawable
  obtain ⟨m', run, held⟩ := panic_types apart placed label texts word stack away small
    (clearScreen o.canvas 0x39254D m₀) (KessOS.clearScreen lfb o.base 0x39254D m₀) Screen.home fits
    cleared
  have shows := Screen.column_shows font o.base (by omega) slim short apart.room
    ⟨o.cursor m₀, m₀⟩ (show 0x39254D < 4294967296 by omega) plain lines.narrow room
  refine ⟨m', run, ?_, fun a outside => (held.frame outside).symm⟩
  exact shows.congr drawable fun px py hx hy => held.pixel apart hx hy

end

def lowTexts : Texts where
  panicmsg1 := 253
  panicmsg2 := 140
  panicmsg3 := 156
  newline := 188
  rule := 190
  title := 221
  lineFormat := 243

theorem low_texts : lowTexts.Placed (lowObjects.written wideScreen) lowMem := by
  constructor <;>
    exact literal_at (by decide +kernel) (by decide +kernel)
      (low_avoids (by decide) (by decide +kernel))

/-- A page fault with the stack at the end of a page. -/
theorem panic_legible_fault :
    ∃ m', lowObjects.panic lowTexts 0xE 0x201FF0 lowMem = some m' ∧
      Pixels.Shows wideScreen lowFont
        (Canvas.typedLetters wideScreen lowFont Screen.home (panicText lowMem 0xE 0x201FF0))
        (fun _ => 0x39254D) (pixelsOf lowObjects.base m') ∧
      ∀ a, a ∉ lowObjects.written wideScreen → m' a = lowMem a := by
  have stack : ∀ i, i < 5 → lineAddress 0x201FF0 i ∉ lowObjects.written wideScreen := by
    intro i hi
    have address : lineAddress 0x201FF0 i = 0x201FF0 + i := by
      unfold lineAddress
      omega
    rw [address]
    exact low_read (by omega) (by omega)
  have away : Avoids (span lowObjects.hexString 80) (span lowObjects.terminated 2) := by
    rintro a ⟨_, high⟩ ⟨low, _⟩
    simp only [lowObjects] at high low
    omega
  exact panic_legible low_apart low_placed low_label low_texts (by decide) stack low_glyphs away
    (by decide) (by decide) (by decide) (by decide) (by decide)

end KessOS.InMemory
