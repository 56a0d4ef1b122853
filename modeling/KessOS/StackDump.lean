import KessOS.Font
import KessOS.Log

/-!
# The stack dump

`dump_stack` prints five addresses and the bytes there with `%x`, which shows
32 bits of an address, and of a byte the `int` that the signed `char` becomes.

* `dumpStack_type`: what it prints;
* `dumpStack_iff`: its lines are right when the addresses have 32 bits and the
  bytes are below 0x80.
-/

namespace KessOS

def lineFormat : CString := .literal "%x => %x\n"

/-- `(uint64_t)rsp, *(char*)rsp`: a `char` is passed as an `int`. -/
def lineArgs (m : Mem) (rsp : Nat) : List Arg := [.word rsp, .word (u32 (charValue (m rsp)))]

def rule : CString := .literal "-----------------------------\n"

def title : CString := .literal "ADDRESS         DATA\n"

section
variable (lfb : Framebuffer) (font : Psf1Font) (m : Mem)

/-- The loop: `n` lines from `rsp` on. -/
def dumpLines : Nat → Nat → Printer → Option Printer
  | 0, _, s => some s
  | n + 1, rsp, s =>
    (s.log lfb font lineFormat none (lineArgs m rsp)).bind
      (dumpLines n ((rsp + 1) % 18446744073709551616))

def dumpStack (rsp : Nat) (s : Printer) : Option Printer :=
  (s.log lfb font rule none []).bind fun s =>
    (s.log lfb font title none []).bind fun s =>
      (dumpLines lfb font m 5 rsp s).bind fun s => s.log lfb font rule none []

end

/-! ## What is printed -/

/-- The text of a data line. -/
def dumpLine (m : Mem) (rsp : Nat) : List UInt8 := expand lineFormat.bytes (lineArgs m rsp)

/-- The address of line `i`. -/
def lineAddress (rsp i : Nat) : Nat := (rsp + i) % 18446744073709551616

/-- The data lines that are printed. -/
def dumpedLines (m : Mem) (rsp n : Nat) : List (List UInt8) :=
  (List.range n).map fun i => dumpLine m (lineAddress rsp i)

theorem dumpedLines_succ (m : Mem) {rsp : Nat} (word : rsp < 18446744073709551616) (n : Nat) :
    dumpedLines m rsp (n + 1) =
      dumpLine m rsp :: dumpedLines m ((rsp + 1) % 18446744073709551616) n := by
  have first : lineAddress rsp 0 = rsp := Nat.mod_eq_of_lt word
  have shift (i : Nat) : lineAddress rsp (i + 1) =
      lineAddress ((rsp + 1) % 18446744073709551616) i := by
    unfold lineAddress
    omega
  simp only [dumpedLines, List.range_succ_eq_map, List.map_cons, List.map_map, first,
    Function.comp_def, Nat.succ_eq_add_one, shift]

section
variable (lfb : Framebuffer) (font : Psf1Font) (m : Mem)

theorem log_short {format : CString} {args : List Arg} (matched : Matches format.bytes args)
    (counted : format.bytes.length < 2147483648) (words : ∀ str, .str str ∉ args) (s : Printer) :
    ∃ s', s.log lfb font format none args = some s' ∧
      s'.canvas = (s.type lfb font 0xFFFFFF (expand format.bytes args)).canvas := by
  obtain ⟨s', run, _, canvas⟩ := Printer.log_type lfb font none matched counted
    (fun str listed => absurd listed (words str)) s []
  rw [List.append_nil] at run
  exact ⟨s', run, canvas⟩

theorem dumpLines_type {n rsp : Nat} (word : rsp < 18446744073709551616) (s : Printer) :
    ∃ s', dumpLines lfb font m n rsp s = some s' ∧
      s'.canvas = (s.type lfb font 0xFFFFFF (dumpedLines m rsp n).flatten).canvas := by
  induction n generalizing rsp s with
  | zero => exact ⟨s, rfl, rfl⟩
  | succ n ih =>
    have matched : Matches lineFormat.bytes (lineArgs m rsp) :=
      .cons (show Arg.Fits .hex (.word _) from trivial)
        (.cons (show Arg.Fits .hex (.word _) from trivial) .nil)
    obtain ⟨s₁, first, canvas₁⟩ := log_short lfb font matched (by decide)
      (by simp [lineArgs]) s
    obtain ⟨s', rest, canvas⟩ := ih (Nat.mod_lt (rsp + 1) (by omega)) s₁
    refine ⟨s', ?_, ?_⟩
    · rw [dumpLines, first, Option.bind_some, rest]
    · rw [canvas, dumpedLines_succ m word, List.flatten_cons, Printer.type_append]
      exact Printer.type_congr lfb font _ _ canvas₁

/-- **What `dump_stack` prints.** -/
theorem dumpStack_type {rsp : Nat} (word : rsp < 18446744073709551616) (s : Printer) :
    ∃ s', dumpStack lfb font m rsp s = some s' ∧ s'.canvas = (s.type lfb font 0xFFFFFF
      (rule.bytes ++ title.bytes ++ (dumpedLines m rsp 5).flatten ++ rule.bytes)).canvas := by
  have plain (format : CString) (same : expand format.bytes [] = format.bytes)
      (none : specifiers format.bytes = []) (counted : format.bytes.length < 2147483648)
      (s : Printer) : ∃ s', s.log lfb font format Option.none [] = some s' ∧
        s'.canvas = (s.type lfb font 0xFFFFFF format.bytes).canvas := by
    have matched : Matches format.bytes [] := by
      rw [Matches, none]
      exact .nil
    have printed := log_short lfb font matched counted (fun str => List.not_mem_nil) s
    rwa [same] at printed
  have ruled := plain rule (by decide) (by decide) (by decide)
  have titled := plain title (by decide) (by decide) (by decide)
  obtain ⟨s₁, run₁, canvas₁⟩ := ruled s
  obtain ⟨s₂, run₂, canvas₂⟩ := titled s₁
  obtain ⟨s₃, run₃, canvas₃⟩ := dumpLines_type lfb font m (n := 5) word s₂
  obtain ⟨s₄, run₄, canvas₄⟩ := ruled s₃
  refine ⟨s₄, ?_, ?_⟩
  · rw [dumpStack, run₁, Option.bind_some, run₂, Option.bind_some, run₃, Option.bind_some, run₄]
  · rw [canvas₄, Printer.type_congr lfb font _ _ canvas₃, ← Printer.type_append,
      Printer.type_congr lfb font _ _ canvas₂, ← Printer.type_append,
      Printer.type_congr lfb font _ _ canvas₁, ← Printer.type_append]
    simp only [List.append_assoc]

end

/-! ## What it should show -/

/-- The full address and the value of the byte. -/
def shownLine (address : Nat) (byte : UInt8) : List UInt8 :=
  hexText address ++ (" => ".toList.map ascii ++ (hexText byte.toNat ++ [0x0a]))

def ShowsStack (m : Mem) (rsp : Nat) : Prop :=
  dumpedLines m rsp 5 = (List.range 5).map fun i =>
    shownLine (lineAddress rsp i) (m (lineAddress rsp i))

theorem dumpLine_eq (m : Mem) (rsp : Nat) : dumpLine m rsp = hexText (rsp % 4294967296) ++
    (" => ".toList.map ascii ++ (hexText (u32 (charValue (m rsp)) % 4294967296) ++ [0x0a])) :=
  rfl

/-- A line has one equals sign. -/
theorem split_line (address data : List UInt8) :
    address ++ (" => ".toList.map ascii ++ data) =
      (address ++ [0x20]) ++ ascii '=' :: (0x3e :: 0x20 :: data) := by
  rw [List.append_assoc]
  rfl

/-- A `char` from 0x80 on is negative. -/
theorem charValue_word (b : UInt8) : u32 (charValue b) % 4294967296 = b.toNat ↔ b.toNat < 128 := by
  have byte := b.toNat_lt
  unfold charValue u32
  split <;> omega

/-- When a line is right. -/
theorem dumpLine_iff (m : Mem) (a : Nat) : dumpLine m a = shownLine a (m a) ↔
    a < 4294967296 ∧ (m a).toNat < 128 := by
  rw [dumpLine_eq, shownLine]
  constructor
  · intro same
    have sign (n : Nat) : ascii '=' ∉ hexText n := fun listed => (mem_hexText listed).2 rfl
    have before (n : Nat) : ascii '=' ∉ hexText n ++ [0x20] := by
      rw [List.mem_append, not_or]
      exact ⟨sign n, by decide⟩
    have after (n : Nat) : ascii '=' ∉ 0x3e :: 0x20 :: (hexText n ++ [0x0a]) := by
      rw [List.mem_cons, List.mem_cons, List.mem_append, not_or, not_or, not_or]
      exact ⟨by decide, by decide, sign n, by decide⟩
    rw [split_line, split_line] at same
    obtain ⟨address, _, rest⟩ := (List.append_cons_inj_of_notMem (before _) (after _)).mp same
    have address := List.append_cancel_right address
    have data := List.append_cancel_right (List.cons.inj (List.cons.inj rest).2).2
    have low := hexText_inj address
    exact ⟨by omega, (charValue_word (m a)).mp (hexText_inj data)⟩
  · rintro ⟨low, ascii⟩
    rw [Nat.mod_eq_of_lt low, (charValue_word (m a)).mpr ascii]

theorem showsStack_iff (m : Mem) (rsp : Nat) : ShowsStack m rsp ↔
    ∀ i, i < 5 → lineAddress rsp i < 4294967296 ∧ (m (lineAddress rsp i)).toNat < 128 := by
  rw [ShowsStack, dumpedLines, List.map_inj_left]
  simp only [dumpLine_iff, List.mem_range]

/-- **When the stack dump shows the stack.** -/
theorem dumpStack_iff (lfb : Framebuffer) (font : Psf1Font) (m : Mem) (rsp : UInt64) :
    (∀ s, ∃ s', dumpStack lfb font m rsp.toNat s = some s' ∧
      s'.canvas = (s.type lfb font 0xFFFFFF (rule.bytes ++ title.bytes ++
        (dumpedLines m rsp.toNat 5).flatten ++ rule.bytes)).canvas) ∧
    (ShowsStack m rsp.toNat ↔ ∀ i, i < 5 →
      lineAddress rsp.toNat i < 4294967296 ∧ (m (lineAddress rsp.toNat i)).toNat < 128) := by
  constructor
  · exact dumpStack_type lfb font m rsp.toNat_lt
  · exact showsStack_iff m rsp.toNat

/-- A byte 0xFF is shown as 0xFFFFFFFF. -/
theorem negative_byte_not_shown :
    ¬ ∀ (m : Mem) (rsp : UInt64), ShowsStack m rsp.toNat := by
  intro all
  have shown := (showsStack_iff _ _).mp (all (fun _ => 0xFF) 0x7000) 0 (by decide)
  exact absurd shown.2 (by decide)

end KessOS
