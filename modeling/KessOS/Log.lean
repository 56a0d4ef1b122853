import KessOS.Console
import KessOS.Strings
import Mathlib.Data.List.Forall2

/-!
# The log

`log` copies its format to the console character by character and replaces
`%s`, `%d` and `%x` by its arguments. A first pass over the format counts
arguments for the second operand of `va_start`, which the compiler ignores.

* `expand`: the text of a format and its arguments;
* `scan_expand`: the loop writes that text and uses up the arguments;
* `log_renders`: as long as the counters do not wrap, `log` is one `kwrite`.
-/

namespace KessOS

inductive Status where
  | warning
  | info
  | critical
  | panic

/-- An argument of a variadic call, in its 64-bit slot. A string is taken by value:
no caller passes memory that `log` writes. -/
inductive Arg where
  | str (s : CString)
  | word (v : Nat)

inductive Specifier where
  | string
  | decimal
  | hex
  deriving DecidableEq

/-- The `switch` on the character after a `%`. -/
def specifier (c next : UInt8) : Option Specifier :=
  if c = ascii '%' then
    if next = ascii 's' then some .string
    else if next = ascii 'd' then some .decimal
    else if next = ascii 'x' then some .hex
    else none
  else none

/-- `va_arg(ptr, const char*)`, undefined for another argument. -/
def vaArgString : List Arg → Option (CString × List Arg)
  | .str s :: rest => some (s, rest)
  | _ => none

/-- `va_arg(ptr, int)` takes the lower half of a slot. -/
def vaArgInt : List Arg → Option (Int × List Arg)
  | .word v :: rest => some (int32 v, rest)
  | _ => none

namespace CString

/-- `str[i]`, the terminator included. -/
def charAt (str : CString) (i : Int) : UInt8 := str.bytes.getD (u64 i) 0

/-- `char terminated[2] = {c, 0x0}`. -/
def terminated (c : UInt8) : CString where
  bytes := if c = 0 then [] else [c]
  noNul := by
    split
    · exact List.not_mem_nil
    · next char => simpa using Ne.symm char
  fits := by split <;> simp

def literal (s : String) (noNul : 0 ∉ s.toList.map ascii := by decide)
    (fits : (s.toList.map ascii).length < 9223372036854775808 := by decide) : CString where
  bytes := s.toList.map ascii
  noNul := noNul
  fits := fits

end CString

theorem textFrom_noNul (buf : Mem) (i n : Nat) : 0 ∉ textFrom buf i n := by
  induction n generalizing i with
  | zero => exact List.not_mem_nil
  | succ n ih =>
    rw [textFrom]
    split
    · exact List.not_mem_nil
    · next char =>
      rw [List.mem_cons, not_or]
      exact ⟨Ne.symm char, ih (i + 1)⟩

theorem length_textFrom (buf : Mem) (i n : Nat) : (textFrom buf i n).length ≤ n := by
  induction n generalizing i with
  | zero => exact Nat.le_refl _
  | succ n ih =>
    rw [textFrom]
    split
    · exact Nat.zero_le _
    · exact Nat.succ_le_succ (ih (i + 1))

/-- The string a static buffer holds. -/
def CString.ofBuffer (buf : Mem) : CString where
  bytes := textOf buf
  noNul := textFrom_noNul buf 0 80
  fits := Nat.lt_of_le_of_lt (length_textFrom buf 0 80) (by decide)

def statusPrefix : Status → CString
  | .warning => .literal "[WARNING] "
  | .info => .literal "[INFO] "
  | .panic => .literal "** KERNEL PANIC **\n"
  | .critical => .literal "[CRITICAL] "

/-- The colour of a status; a number outside the enumeration has no prefix. -/
def statusColor : Option Status → Nat
  | none => 0xFFFFFF
  | some .warning => 0x800080
  | some .info => 0x00FF00
  | some .panic => 0xFF0000
  | some .critical => 0xFF0000

/-- The canvas, the buffers of `dec2str` and `hex2str`, and the arguments left. -/
structure Printer where
  canvas : Canvas
  decString : Mem
  hexString : Mem
  args : List Arg

namespace Printer

variable (lfb : Framebuffer) (font : Psf1Font)

def kwrite (color : Nat) (str : CString) (s : Printer) : Printer :=
  { s with canvas := s.canvas.kwrite lfb font str color }

/-- One iteration over the format: the new index, before its `++i`, and the state. -/
def step (format : CString) (color : Nat) (i : Int) (s : Printer) : Option (Int × Printer) :=
  match specifier (format.charAt i) (format.charAt (incInt i)) with
  | some .string =>
    (vaArgString s.args).map fun (arg, args) =>
      (incInt i, forInt u64 arg.bytes.length
        (fun j s => s.kwrite lfb font color (.terminated (arg.charAt j))) intFuel 0
        { s with args := args })
  | some .decimal =>
    (vaArgInt s.args).map fun (arg, args) =>
      let buf := dec2str s.decString arg
      (incInt i, { s with args := args, decString := buf }.kwrite lfb font color (.ofBuffer buf))
  | some .hex =>
    (vaArgInt s.args).map fun (arg, args) =>
      let buf := hex2str s.hexString (u32 arg)
      (incInt i, { s with args := args, hexString := buf }.kwrite lfb font color (.ofBuffer buf))
  | none => some (i, s.kwrite lfb font color (.terminated (format.charAt i)))

/-- `for (int i = 0; i < strlen(format); ++i)`, whose body moves `i` on as well. -/
def scan (format : CString) (color : Nat) : Nat → Int → Printer → Option Printer
  | 0, _, s => some s
  | fuel + 1, i, s =>
    if u64 i < format.bytes.length then
      (s.step lfb font format color i).bind fun (i, s) => scan format color fuel (incInt i) s
    else some s

def log (format : CString) (status : Option Status) (args : List Arg) (s : Printer) :
    Option Printer :=
  let s := { s with args := args }
  let s := match status with
    | none => s
    | some status => s.kwrite lfb font (statusColor status) (statusPrefix status)
  s.scan lfb font format (statusColor status) intFuel 0

end Printer

/-! ## The text of a format -/

def Arg.Fits : Specifier → Arg → Prop
  | .string, .str _ => True
  | .decimal, .word _ => True
  | .hex, .word _ => True
  | _, _ => False

/-- What replaces a specifier: the string, or what `dec2str` or `hex2str` returns. -/
def Arg.text : Specifier → Arg → List UInt8
  | .string, .str s => s.bytes
  | .decimal, .word v => decText (int32 v)
  | .hex, .word v => hexText (v % 4294967296)
  | _, _ => []

def specifiers : List UInt8 → List Specifier
  | [] => []
  | [_] => []
  | c :: next :: rest =>
    match specifier c next with
    | none => specifiers (next :: rest)
    | some spec => spec :: specifiers rest

/-- The arguments are those the format asks for, in their order. -/
def Matches (format : List UInt8) (args : List Arg) : Prop :=
  List.Forall₂ Arg.Fits (specifiers format) args

/-- The format with each specifier replaced by the next argument. -/
def expand : List UInt8 → List Arg → List UInt8
  | [], _ => []
  | [c], _ => [c]
  | c :: next :: rest, args =>
    match specifier c next, args with
    | none, args => c :: expand (next :: rest) args
    | some _, [] => []
    | some spec, arg :: args => arg.text spec ++ expand rest args

theorem expand_plain {c next : UInt8} (plain : specifier c next = none) (rest : List UInt8)
    (args : List Arg) : expand (c :: next :: rest) args = c :: expand (next :: rest) args := by
  simp [expand, plain]

theorem expand_specifier {c next : UInt8} {spec : Specifier}
    (asked : specifier c next = some spec) (rest : List UInt8) (arg : Arg) (args : List Arg) :
    expand (c :: next :: rest) (arg :: args) = arg.text spec ++ expand rest args := by
  simp [expand, asked]

def prefixText : Option Status → List UInt8
  | none => []
  | some status => (statusPrefix status).bytes

/-! ## What the loop writes -/

namespace Printer

variable (lfb : Framebuffer) (font : Psf1Font)

/-- Writing some characters one after the other. -/
def type (color : Nat) (cs : List UInt8) (s : Printer) : Printer :=
  { s with canvas := cs.foldl (fun c chr => c.write lfb font color chr) s.canvas }

theorem type_append (color : Nat) (cs ds : List UInt8) (s : Printer) :
    s.type lfb font color (cs ++ ds) = (s.type lfb font color cs).type lfb font color ds := by
  simp only [type, List.foldl_append]

theorem type_congr (color : Nat) (cs : List UInt8) {s s' : Printer} (same : s.canvas = s'.canvas) :
    (s.type lfb font color cs).canvas = (s'.type lfb font color cs).canvas := by
  rw [type, type, same]

theorem kwrite_type (color : Nat) {str : CString} (short : str.bytes.length ≤ 2147483648)
    (s : Printer) : s.kwrite lfb font color str = s.type lfb font color str.bytes := by
  rw [kwrite, Canvas.kwrite_eq, CString.text_of_short short, type]

theorem kwrite_ofBuffer (color : Nat) (buf : Mem) (s : Printer) :
    s.kwrite lfb font color (.ofBuffer buf) = s.type lfb font color (textOf buf) := by
  have short : (textOf buf).length ≤ 80 := length_textFrom buf 0 80
  exact kwrite_type lfb font color (Nat.le_trans short (by decide)) s

theorem kwrite_terminated (color : Nat) {c : UInt8} (char : c ≠ 0) (s : Printer) :
    s.kwrite lfb font color (.terminated c) = s.type lfb font color [c] := by
  have bytes : (CString.terminated c).bytes = [c] := if_neg char
  have short : (CString.terminated c).bytes.length ≤ 2147483648 := by
    rw [bytes, List.length_singleton]
    omega
  rw [kwrite_type lfb font color short, bytes]

theorem foldl_terminated (color : Nat) {cs : List UInt8} (noNul : 0 ∉ cs) (s : Printer) :
    cs.foldl (fun s c => s.kwrite lfb font color (.terminated c)) s = s.type lfb font color cs := by
  induction cs generalizing s with
  | nil => rfl
  | cons c cs ih =>
    have char : c ≠ 0 := fun zero => noNul (zero ▸ List.mem_cons_self)
    rw [List.foldl_cons, kwrite_terminated lfb font color char,
      ih (fun listed => noNul (List.mem_cons_of_mem _ listed)), ← type_append]
    rfl

/-- The loop over the argument of `%s`. -/
theorem string_loop (color : Nat) {arg : CString} (short : arg.bytes.length ≤ 2147483648)
    (s : Printer) :
    forInt u64 arg.bytes.length
        (fun j s => s.kwrite lfb font color (.terminated (arg.charAt j))) intFuel 0 s =
      s.type lfb font color arg.bytes := by
  have loop := forInt_u64_getD arg.bytes 0
    (fun c s => kwrite lfb font color (.terminated c) s) (by omega) s
  rw [List.take_of_length_le short, foldl_terminated lfb font color arg.noNul] at loop
  exact loop

end Printer

theorem charAt_drop {str : CString} {p : Nat} {c : UInt8} {rest : List UInt8}
    (small : p < 2147483648) (suffix : str.bytes.drop p = c :: rest) :
    str.charAt (int32 p) = c := by
  have here : str.bytes[p]? = some c := by
    rw [← Nat.add_zero p, ← List.getElem?_drop, suffix]
    rfl
  rw [CString.charAt, int32_small small, u64_small (by omega), List.getD_eq_getElem?_getD, here]
  rfl

theorem charAt_end {str : CString} {p : Nat} (small : p < 2147483648)
    (suffix : str.bytes.drop p = []) : str.charAt (int32 p) = 0 := by
  have past := List.drop_eq_nil_iff.mp suffix
  rw [CString.charAt, int32_small small, u64_small (by omega), List.getD_eq_getElem?_getD,
    List.getElem?_eq_none past]
  rfl

theorem drop_succ {str : CString} {p : Nat} {c : UInt8} {rest : List UInt8}
    (suffix : str.bytes.drop p = c :: rest) :
    p < str.bytes.length ∧ c ≠ 0 ∧ str.bytes.drop (p + 1) = rest := by
  have inside : p < str.bytes.length := by
    by_contra past
    rw [List.drop_eq_nil_of_le (by omega)] at suffix
    cases suffix
  have listed : c ∈ str.bytes := by
    apply List.mem_of_mem_drop (i := p)
    rw [suffix]
    exact List.mem_cons_self
  constructor
  · exact inside
  constructor
  · exact fun zero => str.noNul (zero ▸ listed)
  · rw [← List.drop_drop, suffix, List.drop_one, List.tail_cons]

/-- A `%` in front of the terminator is an ordinary character. -/
theorem specifier_end (c : UInt8) : specifier c 0 = none := by
  unfold specifier
  split
  · rfl
  · rfl

namespace Printer

variable (lfb : Framebuffer) (font : Psf1Font)

/-- One iteration writes a character or a replacement. -/
theorem step_plain (format : CString) (color : Nat) {i : Int} {c : UInt8} (char : c ≠ 0)
    (here : format.charAt i = c) (plain : specifier c (format.charAt (incInt i)) = none)
    (s : Printer) :
    s.step lfb font format color i = some (i, s.type lfb font color [c]) := by
  rw [step, here, plain]
  simp only
  rw [kwrite_terminated lfb font color char]

theorem step_specifier (format : CString) (color : Nat) {i : Int} {spec : Specifier} {arg : Arg}
    (asked : specifier (format.charAt i) (format.charAt (incInt i)) = some spec)
    (fits : arg.Fits spec) (short : ∀ str, arg = .str str → str.bytes.length ≤ 2147483648)
    (s : Printer) {args : List Arg} (given : s.args = arg :: args) :
    ∃ s', s.step lfb font format color i = some (incInt i, s') ∧ s'.args = args ∧
      s'.canvas = (s.type lfb font color (arg.text spec)).canvas := by
  rw [step, asked]
  cases spec with
  | string =>
    cases arg with
    | str str =>
      refine ⟨_, by rw [given]; rfl, ?_⟩
      rw [string_loop lfb font color (short str rfl)]
      exact ⟨rfl, rfl⟩
    | word v => cases fits
  | decimal =>
    cases arg with
    | str str => cases fits
    | word v =>
      have range : -2147483648 ≤ int32 v ∧ int32 v < 2147483648 := by
        unfold int32
        split <;> omega
      refine ⟨_, by rw [given]; rfl, ?_⟩
      rw [kwrite_ofBuffer, dec2str_text _ range.1 range.2]
      exact ⟨rfl, rfl⟩
  | hex =>
    cases arg with
    | str str => cases fits
    | word v =>
      refine ⟨_, by rw [given]; rfl, ?_⟩
      rw [kwrite_ofBuffer, u32_int32, hex2str_text _ (Nat.mod_lt _ (by omega))]
      exact ⟨rfl, rfl⟩

theorem scan_next (format : CString) (color : Nat) {p : Nat} (small : p < 2147483648)
    (inside : p < format.bytes.length) {i' : Int} {s s' : Printer}
    (first : s.step lfb font format color (int32 p) = some (i', s')) (fuel : Nat) :
    s.scan lfb font format color (fuel + 1) (int32 p) =
      s'.scan lfb font format color fuel (incInt i') := by
  have below : u64 (int32 p) < format.bytes.length := by
    rwa [int32_small small, u64_small (by omega)]
  rw [scan, if_pos below, first]
  rfl

theorem scan_end (format : CString) (color : Nat) {p : Nat} (small : p < 2147483648)
    (past : format.bytes.length ≤ p) (fuel : Nat) (s : Printer) :
    s.scan lfb font format color (fuel + 1) (int32 p) = some s := by
  have beyond : ¬ u64 (int32 p) < format.bytes.length := by
    rw [int32_small small, u64_small (by omega)]
    omega
  rw [scan, if_neg beyond]

/-- **The loop writes the expansion** of what is left of the format. -/
theorem scan_expand (format : CString) (counted : format.bytes.length < 2147483648) (color : Nat)
    (rest : List Arg) (xs : List UInt8) (used : List Arg) :
    ∀ {p fuel : Nat} {s : Printer}, format.bytes.drop p = xs → Matches xs used →
      (∀ str, .str str ∈ used → str.bytes.length ≤ 2147483648) → s.args = used ++ rest →
      p ≤ format.bytes.length → xs.length < fuel →
      ∃ s', s.scan lfb font format color fuel (int32 p) = some s' ∧ s'.args = rest ∧
        s'.canvas = (s.type lfb font color (expand xs used)).canvas := by
  induction xs, used using expand.induct with
  | case1 used =>
    intro p fuel s suffix matched _ args low enough
    have past := List.drop_eq_nil_iff.mp suffix
    obtain ⟨fuel, rfl⟩ := Nat.exists_eq_add_one_of_ne_zero (Nat.ne_zero_of_lt enough)
    have none : used = [] := List.forall₂_nil_left_iff.mp matched
    refine ⟨s, ?_, ?_, rfl⟩
    · exact scan_end lfb font format color (by omega) past fuel s
    · rw [args, none, List.nil_append]
  | case2 c used =>
    intro p fuel s suffix matched _ args low enough
    obtain ⟨inside, char, last⟩ := drop_succ suffix
    have past := List.drop_eq_nil_iff.mp last
    obtain ⟨fuel, rfl⟩ := Nat.exists_eq_add_of_le' (show 2 ≤ fuel from enough)
    have none : used = [] := List.forall₂_nil_left_iff.mp matched
    have plain : specifier c (format.charAt (incInt (int32 p))) = Option.none := by
      rw [incInt_int32, charAt_end (by omega) last]
      exact specifier_end c
    have first := step_plain lfb font format color char (charAt_drop (by omega) suffix) plain s
    refine ⟨s.type lfb font color [c], ?_, ?_, rfl⟩
    · rw [scan_next lfb font format color (by omega) inside first, incInt_int32]
      exact scan_end lfb font format color (by omega) past fuel _
    · show s.args = rest
      rw [args, none, List.nil_append]
  | case3 c next tail used plain ih =>
    intro p fuel s suffix matched short args low enough
    obtain ⟨inside, char, later⟩ := drop_succ suffix
    obtain ⟨inside', _, _⟩ := drop_succ later
    obtain ⟨fuel, rfl⟩ := Nat.exists_eq_add_one_of_ne_zero (Nat.ne_zero_of_lt enough)
    have here : specifier c (format.charAt (incInt (int32 p))) = Option.none := by
      rw [incInt_int32, charAt_drop (by omega) later]
      exact plain
    have matched' : Matches (next :: tail) used := by
      rw [Matches, specifiers, plain] at matched
      exact matched
    have first := step_plain lfb font format color char (charAt_drop (by omega) suffix) here s
    obtain ⟨s', run, left, canvas⟩ := ih (s := s.type lfb font color [c]) later matched' short args
      (by omega) (by simpa using enough)
    refine ⟨s', ?_, left, ?_⟩
    · rw [scan_next lfb font format color (by omega) inside first, incInt_int32]
      exact run
    · rw [canvas, ← type_append, expand_plain plain, List.singleton_append]
  | case4 c next tail spec asked =>
    intro p fuel s suffix matched
    rw [Matches, specifiers, asked] at matched
    cases matched
  | case5 c next tail spec arg used asked ih =>
    intro p fuel s suffix matched short args low enough
    obtain ⟨inside, char, later⟩ := drop_succ suffix
    obtain ⟨inside', _, last⟩ := drop_succ later
    obtain ⟨fuel, rfl⟩ := Nat.exists_eq_add_one_of_ne_zero (Nat.ne_zero_of_lt enough)
    have here : specifier (format.charAt (int32 p)) (format.charAt (incInt (int32 p))) =
        some spec := by
      rw [incInt_int32, charAt_drop (by omega) suffix, charAt_drop (by omega) later]
      exact asked
    rw [Matches, specifiers, asked] at matched
    obtain ⟨fits, matched'⟩ := List.forall₂_cons.mp matched
    have given : s.args = arg :: (used ++ rest) := args
    obtain ⟨s₁, first, left₁, canvas₁⟩ := step_specifier lfb font format color here fits
      (fun str same => short str (same ▸ List.mem_cons_self)) s given
    have shorter : tail.length < fuel := by
      simp only [List.length_cons] at enough
      omega
    obtain ⟨s', run, left, canvas⟩ := ih (s := s₁) last matched'
      (fun str listed => short str (List.mem_cons_of_mem _ listed)) left₁ (by omega) shorter
    refine ⟨s', ?_, left, ?_⟩
    · rw [scan_next lfb font format color (by omega) inside first, incInt_int32, incInt_int32]
      exact run
    · rw [expand_specifier asked, type_append, canvas, type_congr lfb font color _ canvas₁]

/-! ## One call -/

theorem statusPrefix_short (status : Status) :
    (statusPrefix status).bytes.length ≤ 2147483648 := by
  cases status <;> decide

/-- **What a call of `log` writes.** -/
theorem log_type {format : CString} {args : List Arg} (status : Option Status)
    (matched : Matches format.bytes args) (counted : format.bytes.length < 2147483648)
    (short : ∀ str, .str str ∈ args → str.bytes.length ≤ 2147483648) (s : Printer)
    (rest : List Arg) :
    ∃ s', s.log lfb font format status (args ++ rest) = some s' ∧ s'.args = rest ∧
      s'.canvas = (s.type lfb font (statusColor status)
        (prefixText status ++ expand format.bytes args)).canvas := by
  have fuel : format.bytes.length < intFuel := by
    unfold intFuel
    omega
  have loop {s : Printer} (given : s.args = args ++ rest) :=
    scan_expand lfb font format counted (statusColor status) rest format.bytes args (p := 0)
      (s := s) rfl matched short given (Nat.zero_le _) fuel
  cases status with
  | none =>
    obtain ⟨s', run, left, canvas⟩ := loop (s := { s with args := args ++ rest }) rfl
    exact ⟨s', run, left, canvas⟩
  | some status =>
    obtain ⟨s', run, left, canvas⟩ := loop (s := ({ s with args := args ++ rest } : Printer).kwrite
      lfb font (statusColor (some status)) (statusPrefix status)) rfl
    refine ⟨s', run, left, ?_⟩
    rw [canvas, kwrite_type lfb font _ (statusPrefix_short status), ← type_append]
    rfl

/-- `log` does what one `kwrite` of the prefix and the expansion does, in the
colour of the status, and uses the arguments of the format and no others. -/
def RendersAs (format : CString) (status : Option Status) (args : List Arg) : Prop :=
  ∀ text : CString, text.bytes = prefixText status ++ expand format.bytes args →
    ∀ (s : Printer) (rest : List Arg),
      ∃ s', s.log lfb font format status (args ++ rest) = some s' ∧ s'.args = rest ∧
        s'.canvas = s.canvas.kwrite lfb font text (statusColor status)

/-- A string argument is part of the expansion. -/
theorem str_le_expand (xs : List UInt8) (args : List Arg) (matched : Matches xs args)
    {str : CString} (listed : .str str ∈ args) :
    str.bytes.length ≤ (expand xs args).length := by
  induction xs, args using expand.induct with
  | case1 args =>
    rw [List.forall₂_nil_left_iff.mp matched] at listed
    cases listed
  | case2 c args =>
    rw [List.forall₂_nil_left_iff.mp matched] at listed
    cases listed
  | case3 c next tail args plain ih =>
    rw [Matches, specifiers, plain] at matched
    have rest := ih matched listed
    rw [expand_plain plain, List.length_cons]
    omega
  | case4 c next tail spec asked =>
    cases listed
  | case5 c next tail spec arg args asked ih =>
    rw [Matches, specifiers, asked] at matched
    obtain ⟨fits, matched'⟩ := List.forall₂_cons.mp matched
    rw [expand_specifier asked, List.length_append]
    rcases List.mem_cons.mp listed with rfl | later
    · cases spec with
      | string => exact Nat.le_add_right _ _
      | decimal => cases fits
      | hex => cases fits
    · have rest := ih matched' later
      omega

/-- How many cells a text adds. -/
theorem length_cells (color : Nat) (cs : List UInt8) (c : Canvas) :
    (cs.foldl (fun c chr => c.write lfb font color chr) c).cells.length =
      c.cells.length + cs.countP (· ≠ Canvas.newlineChar) := by
  induction cs generalizing c with
  | nil => rfl
  | cons chr cs ih =>
    rw [List.foldl_cons, ih, List.countP_cons]
    by_cases newline : chr = Canvas.newlineChar
    · have same : (c.write lfb font color chr).cells = c.cells := by
        rw [Canvas.write, if_pos newline]
        rfl
      rw [same]
      simp [newline]
    · rw [Canvas.cells_write lfb font color c newline, List.length_cons]
      simp only [newline, ne_eq, not_false_eq_true, decide_true, ↓reduceIte]
      omega

/-- When the text comes out right all the same, `kwrite` loses only newlines. -/
theorem RendersAs.lost {lfb : Framebuffer} {font : Psf1Font} {format text : CString}
    {status : Option Status} {args : List Arg} (renders : RendersAs lfb font format status args)
    (bytes : text.bytes = prefixText status ++ expand format.bytes args)
    (matched : Matches format.bytes args) (counted : format.bytes.length < 2147483648)
    (strings : ∀ str, .str str ∈ args → str.bytes.length ≤ 2147483648) :
    ∀ c ∈ text.bytes.drop 2147483648, c = Canvas.newlineChar := by
  intro c lost
  let s : Printer := ⟨KessOS.canvas, fun _ => 0, fun _ => 0, []⟩
  obtain ⟨s₁, run₁, _, canvas₁⟩ := renders text bytes s []
  obtain ⟨s₂, run₂, _, canvas₂⟩ := log_type lfb font status matched counted strings s []
  rw [run₁] at run₂
  cases run₂
  rw [canvas₁, ← bytes, Canvas.kwrite_eq] at canvas₂
  have cells := congrArg (fun c : Canvas => c.cells.length) canvas₂
  simp only [type, length_cells] at cells
  rw [← List.take_append_drop 2147483648 text.bytes, List.countP_append] at cells
  have none : (text.bytes.drop 2147483648).countP (· ≠ Canvas.newlineChar) = 0 := by
    rw [CString.text] at cells
    omega
  simpa using List.countP_eq_zero.mp none c lost

/-- **`log` renders its format** as long as no counter wraps: with fewer than 2^31
characters in the format and at most 2^31 in the whole text. A longer text is cut
off by `kwrite`, which shows unless only newlines are lost. -/
theorem log_renders {format : CString} {status : Option Status} {args : List Arg}
    (matched : Matches format.bytes args) (counted : format.bytes.length < 2147483648) :
    ((prefixText status ++ expand format.bytes args).length ≤ 2147483648 →
      RendersAs lfb font format status args) ∧
    ∀ text : CString, text.bytes = prefixText status ++ expand format.bytes args →
      (∀ str, .str str ∈ args → str.bytes.length ≤ 2147483648) →
        RendersAs lfb font format status args →
          ∀ c ∈ text.bytes.drop 2147483648, c = Canvas.newlineChar := by
  constructor
  · intro short text bytes s rest
    have strings : ∀ str, .str str ∈ args → str.bytes.length ≤ 2147483648 := by
      intro str listed
      have part := str_le_expand format.bytes args matched listed
      rw [List.length_append] at short
      omega
    obtain ⟨s', run, left, canvas⟩ := log_type lfb font status matched counted strings s rest
    refine ⟨s', run, left, ?_⟩
    rw [canvas, Canvas.kwrite_eq, CString.text_of_short (by rwa [bytes]), bytes, type]
  · intro text bytes strings renders
    exact renders.lost bytes matched counted strings

theorem log_renders_devices :
    ((prefixText (some .info) ++ expand (CString.literal "%d devices found!\n").bytes
        [.word 5]).length ≤ 2147483648 →
      RendersAs vga Canvas.blankFont (.literal "%d devices found!\n") (some .info) [.word 5]) ∧
    ∀ text : CString, text.bytes = prefixText (some .info) ++
        expand (CString.literal "%d devices found!\n").bytes [.word 5] →
      (∀ str, .str str ∈ [Arg.word 5] → str.bytes.length ≤ 2147483648) →
        RendersAs vga Canvas.blankFont (.literal "%d devices found!\n") (some .info) [.word 5] →
          ∀ c ∈ text.bytes.drop 2147483648, c = Canvas.newlineChar :=
  log_renders vga Canvas.blankFont
    (List.Forall₂.cons (show Arg.Fits .decimal (.word 5) from trivial) List.Forall₂.nil)
    (by decide)

/-- Of 2^31 letters and one more, `log` writes all and `kwrite` stops before the last. -/
theorem long_argument_not_rendered : ¬ ∀ (format : CString) (args : List Arg),
    Matches format.bytes args → RendersAs vga Canvas.blankFont format none args := by
  intro all
  have matched : Matches (CString.literal "%sA").bytes
      [.str (Canvas.letters 2147483648 (by decide))] :=
    List.Forall₂.cons (show Arg.Fits .string (.str _) from trivial) List.Forall₂.nil
  have strings : ∀ str, .str str ∈ [Arg.str (Canvas.letters 2147483648 (by decide))] →
      str.bytes.length ≤ 2147483648 := by
    intro str listed
    cases List.mem_singleton.mp listed
    exact Nat.le_of_eq List.length_replicate
  have text : expand (CString.literal "%sA").bytes
      [.str (Canvas.letters 2147483648 (by decide))] = List.replicate 2147483649 0x41 :=
    (List.replicate_succ' (n := 2147483648)).symm
  have lost : ∀ c ∈ (Canvas.letters 2147483649 (by decide)).bytes.drop 2147483648,
      c = Canvas.newlineChar :=
    (all _ _ matched).lost text.symm matched (by decide) strings
  have dropped : (Canvas.letters 2147483649 (by decide)).bytes.drop 2147483648 = [0x41] :=
    List.drop_replicate
  rw [dropped] at lost
  exact absurd (lost 0x41 (List.mem_singleton_self _)) (by decide)

end Printer

end KessOS
