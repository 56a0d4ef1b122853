import KessOS.ConsoleInMemory

/-!
# The log over memory

`log` goes through its format and the argument of a `%s` where they lie, and
passes on to `kwrite` what it has put into static buffers and arrays on the stack.

* `ofBuffer_at`, `terminate_at`: the strings it makes;
* `Iteration`: what an iteration over the format can be;
* `log_holds`, `log_text`: what it leaves in memory is what the screen should be;
* `plain_holds`: a format without `%` may lie in a static buffer.
-/

namespace KessOS.InMemory

open Mem (span AgreeOff Avoids)

/-! ## Strings of `log` -/

theorem textFrom_getD (buf : Mem) {i n k : Nat} (short : (textFrom buf i n).length < n)
    (inside : k ≤ (textFrom buf i n).length) : buf (i + k) = (textFrom buf i n).getD k 0 := by
  induction n generalizing i k with
  | zero => omega
  | succ n ih =>
    rw [textFrom] at short inside ⊢
    split
    · next stop =>
      rw [if_pos stop] at inside
      have first : k = 0 := Nat.le_zero.mp inside
      rw [first, Nat.add_zero, stop]
      rfl
    · next char =>
      rw [if_neg char] at short inside
      rw [List.length_cons] at short inside
      cases k with
      | zero => rfl
      | succ k =>
        rw [List.getD_cons_succ, ← ih (by omega) (by omega)]
        congr 1
        omega

/-- What `dec2str` and `hex2str` leave in their buffers. -/
theorem ofBuffer_at {W : Set Nat} (m : Mem) {f : Mem} (short : (textOf f).length < 80) {a : Nat}
    (inside : a + 80 ≤ 18446744073709551616) (apart : Avoids (span a 80) W) :
    StringAt W (m.blit a 80 f) a (.ofBuffer f) := by
  refine ⟨fun k hk => ?_, ?_, ?_⟩
  · have listed : k ≤ (textOf f).length := hk
    have text := textFrom_getD f short listed
    rw [Nat.zero_add] at text
    rw [Mem.blit_inside _ _ (by omega), Nat.add_sub_cancel_left, text]
    rfl
  · show a + (textOf f).length < 18446744073709551616
    omega
  · exact apart.mono_left (Set.Ico_subset_Ico (Nat.le_refl a) (Nat.add_le_add_left short a))

theorem terminate_at {W : Set Nat} (m : Mem) (c : UInt8) {a : Nat}
    (inside : a + 2 ≤ 18446744073709551616) (apart : Avoids (span a 2) W) :
    StringAt W (Objects.terminate a c m) a (.terminated c) := by
  have first : Objects.terminate a c m a = c := by
    rw [Objects.terminate, Mem.write8_other _ _ (by omega), Mem.write8_self]
  have second : Objects.terminate a c m (a + 1) = 0 := Mem.write8_self _ _ _
  by_cases nul : c = 0
  · have bytes : (CString.terminated c).bytes = [] := if_pos nul
    refine ⟨fun k hk => ?_, ?_, ?_⟩
    · rw [bytes] at hk ⊢
      obtain rfl : k = 0 := Nat.le_zero.mp hk
      rw [Nat.add_zero, first, nul]
      rfl
    · rw [bytes, List.length_nil]
      omega
    · rw [bytes]
      exact apart.mono_left (Set.Ico_subset_Ico (Nat.le_refl a) (by simp))
  · have bytes : (CString.terminated c).bytes = [c] := if_neg nul
    refine ⟨fun k hk => ?_, ?_, ?_⟩
    · rw [bytes, List.length_singleton] at hk
      rw [bytes]
      obtain rfl | rfl : k = 0 ∨ k = 1 := by omega
      · exact first
      · exact second
    · rw [bytes, List.length_singleton]
      omega
    · rw [bytes]
      exact apart

/-- An argument in its slot: a pointer to the string, or the number. -/
def ArgAt (W : Set Nat) (m : Mem) : Arg → Nat → Prop
  | .str str, slot => StringAt W m slot str
  | .word v, slot => slot = v

theorem terminate_agree (m : Mem) (c : UInt8) (array : Nat) :
    AgreeOff (span array 2) m (Objects.terminate array c m) := by
  have first : span array 1 ⊆ span array 2 := Set.Ico_subset_Ico (by omega) (by omega)
  have second : span (array + 1) 1 ⊆ span array 2 := Set.Ico_subset_Ico (by omega) (by omega)
  rw [Objects.terminate]
  exact (Mem.blit_agree m first fun _ => c).trans (Mem.blit_agree _ second fun _ => 0)

/-- A change of the buffers. -/
theorem Holds.buffer {o : Objects} {lfb : Framebuffer} {m₀ m m' : Mem} {s : Screen}
    (h : Holds o (o.written lfb) m₀ m s) (apart : o.Apart lfb)
    (changed : AgreeOff o.buffers m m') : Holds o (o.written lfb) m₀ m' s := by
  have member {b : Nat} (lo : o.canvas ≤ b) (hi : b + 4 ≤ o.canvas + 12) :
      m'.read32 b = m.read32 b := by
    have cursor : span b 4 ⊆ o.touched lfb :=
      (Set.Ico_subset_Ico lo hi).trans Set.subset_union_left
    exact (changed.readLE (apart.buffers.symm.mono_left cursor)).symm
  constructor
  · rw [Objects.cursor, member (by omega) (by omega), member (by omega) (by omega),
      member (by omega) (by omega)]
    exact h.cursor
  · exact (changed.mono Set.subset_union_right).symm.trans h.mem
  · exact h.frame.trans (changed.mono Set.subset_union_right)

/-! ## `log` -/

/-- What an iteration of `log` can be. -/
inductive Iteration (lfb : Framebuffer) (font : Psf1Font) (format : CString) (color : Nat) (i : Int)
    (p : Printer) : Int → Printer → Prop
  | plain (asked : specifier (format.charAt i) (format.charAt (incInt i)) = none) :
    Iteration lfb font format color i p i
      (p.kwrite lfb font color (.terminated (format.charAt i)))
  | string {str : CString} {rest : List Arg}
    (asked : specifier (format.charAt i) (format.charAt (incInt i)) = some .string)
    (given : p.args = .str str :: rest) :
    Iteration lfb font format color i p (incInt i)
      (forInt u64 str.bytes.length
        (fun j p => p.kwrite lfb font color (.terminated (str.charAt j))) intFuel 0
        { p with args := rest })
  | decimal {v : Nat} {rest : List Arg}
    (asked : specifier (format.charAt i) (format.charAt (incInt i)) = some .decimal)
    (given : p.args = .word v :: rest) :
    Iteration lfb font format color i p (incInt i)
      ({ p with args := rest, decString := dec2str p.decString (int32 v) }.kwrite lfb font color
        (.ofBuffer (dec2str p.decString (int32 v))))
  | hex {v : Nat} {rest : List Arg}
    (asked : specifier (format.charAt i) (format.charAt (incInt i)) = some .hex)
    (given : p.args = .word v :: rest) :
    Iteration lfb font format color i p (incInt i)
      ({ p with args := rest, hexString := hex2str p.hexString (u32 (int32 v)) }.kwrite lfb font
        color (.ofBuffer (hex2str p.hexString (u32 (int32 v)))))

theorem step_iteration {lfb : Framebuffer} {font : Psf1Font} {format : CString} {color : Nat}
    {i i' : Int} {p p' : Printer} (run : p.step lfb font format color i = some (i', p')) :
    Iteration lfb font format color i p i' p' := by
  unfold Printer.step at run
  cases asked : specifier (format.charAt i) (format.charAt (incInt i)) with
  | none =>
    rw [asked] at run
    cases run
    exact .plain asked
  | some spec =>
    rw [asked] at run
    cases given : p.args with
    | nil =>
      rw [given] at run
      cases spec <;> cases run
    | cons arg rest =>
      rw [given] at run
      cases spec <;> cases arg <;> cases run
      · exact .string asked given
      · exact .decimal asked given
      · exact .hex asked given

/-- What was drawn before an iteration has been drawn after it. -/
theorem Iteration.accesses {lfb : Framebuffer} {font : Psf1Font} {format : CString} {color : Nat}
    {i i' : Int} {p p' : Printer} (h : Iteration lfb font format color i p i' p') {a : Access}
    (listed : a ∈ p.canvas.accesses) : a ∈ p'.canvas.accesses := by
  cases h with
  | plain asked => exact Canvas.kwrite_accesses_mono lfb font _ color listed
  | string asked given =>
    by_contra lost
    refine forInt_back (G := fun p : Printer => a ∉ p.canvas.accesses) ?_ _ lost listed
    intro j p before here
    exact before (Canvas.kwrite_accesses_mono lfb font _ color here)
  | decimal asked given => exact Canvas.kwrite_accesses_mono lfb font _ color listed
  | hex asked given => exact Canvas.kwrite_accesses_mono lfb font _ color listed

theorem scan_accesses {lfb : Framebuffer} {font : Psf1Font} {format : CString} {color : Nat}
    {fuel : Nat} {i : Int} {p p' : Printer}
    (run : p.scan lfb font format color fuel i = some p') {a : Access}
    (listed : a ∈ p.canvas.accesses) : a ∈ p'.canvas.accesses := by
  induction fuel generalizing i p with
  | zero =>
    cases run
    exact listed
  | succ fuel ih =>
    rw [Printer.scan] at run
    split at run
    · obtain ⟨⟨i₁, p₁⟩, first, later⟩ := Option.bind_eq_some_iff.mp run
      exact ih later ((step_iteration first).accesses listed)
    · cases run
      exact listed

section
variable {o : Objects} {lfb : Framebuffer} {font : Psf1Font} {m₀ : Mem} (apart : o.Apart lfb)
  (placed : o.Placed lfb font (o.written lfb) m₀)
include apart placed

/-- A call of `kwrite` by `log`. -/
theorem kwrite_written {m : Mem} {ptr : Nat} {str : CString}
    (string : StringAt (o.touched lfb) m ptr str) (color : Nat) {mem : Mem} {c : Canvas}
    (fits : ∀ a ∈ (c.kwrite lfb font str color).accesses, Fits o lfb font (o.written lfb) m₀ a)
    (h : Holds o (o.written lfb) m₀ m (shown o lfb mem c)) :
    Holds o (o.written lfb) m₀ (kwrite o.canvas ptr color m)
      (shown o lfb mem (c.kwrite lfb font str color)) := by
  have sub : o.touched lfb ⊆ o.written lfb := Set.subset_union_left
  refine h.trans ((kwrite_holds ((placed.agree h.frame).mono sub) apart (Set.Subset.refl _)
    string color (fun a listed => ?_) (h.restart _)).mono sub)
  exact ((fits a listed).agree h.frame).mono sub

/-- One character through an array `terminated`. -/
theorem char_written {m : Mem} {array : Nat} (inside : array + 2 ≤ 18446744073709551616)
    (buffer : span array 2 ⊆ o.buffers) (chr : UInt8) (color : Nat) {mem : Mem} {c : Canvas}
    (fits : ∀ a ∈ (c.kwrite lfb font (.terminated chr) color).accesses,
      Fits o lfb font (o.written lfb) m₀ a)
    (h : Holds o (o.written lfb) m₀ m (shown o lfb mem c)) :
    Holds o (o.written lfb) m₀
      (kwrite o.canvas array color (Objects.terminate array chr m))
      (shown o lfb mem (c.kwrite lfb font (.terminated chr) color)) :=
  kwrite_written apart placed
    (terminate_at m chr inside (apart.buffers.mono_left buffer)) color fits
    (h.buffer apart ((terminate_agree m chr array).mono buffer))

/-- The number in a buffer. -/
theorem number_written {m : Mem} {a : Nat} (inside : a + 80 ≤ 18446744073709551616)
    (buffer : span a 80 ⊆ o.buffers) {f f' : Mem} (same : textOf f = textOf f')
    (short : (textOf f).length < 80) (color : Nat) {mem : Mem} {c : Canvas}
    (fits : ∀ a ∈ (c.kwrite lfb font (.ofBuffer f') color).accesses,
      Fits o lfb font (o.written lfb) m₀ a)
    (h : Holds o (o.written lfb) m₀ m (shown o lfb mem c)) :
    Holds o (o.written lfb) m₀ (kwrite o.canvas a color (m.blit a 80 f))
      (shown o lfb mem (c.kwrite lfb font (.ofBuffer f') color)) := by
  have text : CString.ofBuffer f = CString.ofBuffer f' := by
    simp only [CString.ofBuffer, same]
  rw [← text] at fits ⊢
  exact kwrite_written apart placed (ofBuffer_at m short inside (apart.buffers.mono_left buffer))
    color fits (h.buffer apart (Mem.blit_agree m buffer f))

/-- The loop over the argument of `%s`. -/
theorem string_written {m : Mem} {ptr : Nat} {str : CString}
    (string : StringAt (o.written lfb) m₀ ptr str) (color : Nat) {mem : Mem} {p : Printer}
    (fits : ∀ a ∈ (forInt u64 str.bytes.length
        (fun j p => p.kwrite lfb font color (.terminated (str.charAt j))) intFuel 0 p).canvas.accesses,
      Fits o lfb font (o.written lfb) m₀ a)
    (h : Holds o (o.written lfb) m₀ m (shown o lfb mem p.canvas)) :
    Holds o (o.written lfb) m₀
      (forStr ptr (fun j m => kwrite o.canvas o.terminatedArg color
        (Objects.terminate o.terminatedArg (m (byteAt ptr j)) m)) m)
      (shown o lfb mem (forInt u64 str.bytes.length
        (fun j p => p.kwrite lfb font color (.terminated (str.charAt j))) intFuel 0 p).canvas) ∧
    (forInt u64 str.bytes.length
      (fun j p => p.kwrite lfb font color (.terminated (str.charAt j))) intFuel 0 p).args =
        p.args := by
  have buffer : span o.terminatedArg 2 ⊆ o.buffers :=
    Set.subset_union_right.trans Set.subset_union_right
  refine @forBound_rel Printer Mem u64 (fun m => strlen m ptr) str.bytes.length _ _
    (fun m' p' => Holds o (o.written lfb) m₀ m' (shown o lfb mem p'.canvas) ∧ p'.args = p.args)
    (fun p => ∀ a ∈ p.canvas.accesses, Fits o lfb font (o.written lfb) m₀ a)
    ?_ ?_ ?_ intFuel 0 m p ⟨h, rfl⟩ fits
  · rintro m' p' _ ⟨held, _⟩
    exact strlen_eq (string.agree held.frame)
  · intro j p good a listed
    exact good a (Canvas.kwrite_accesses_mono lfb font _ color listed)
  · rintro k m' p' below good ⟨held, left⟩
    rw [(string.agree held.frame).char (Nat.le_of_lt below)]
    exact ⟨char_written apart placed apart.terminatedArg buffer (str.charAt (int32 k)) color good
      held, left⟩

/-- **One iteration of `log`.** -/
theorem step_holds {format : CString} {ptr : Nat}
    (string : StringAt (o.written lfb) m₀ ptr format)
    (counted : format.bytes.length < 2147483648) {i : Int} (below : u64 i < format.bytes.length)
    (color : Nat) {m mem : Mem} {p p' : Printer} {slots : List Nat}
    (args : List.Forall₂ (ArgAt (o.written lfb) m₀) p.args slots)
    (h : Holds o (o.written lfb) m₀ m (shown o lfb mem p.canvas)) {i' : Int}
    (run : p.step lfb font format color i = some (i', p'))
    (fits : ∀ a ∈ p'.canvas.accesses, Fits o lfb font (o.written lfb) m₀ a) :
    ∃ slots' m', o.step ptr color i slots m = some (i', slots', m') ∧
      List.Forall₂ (ArgAt (o.written lfb) m₀) p'.args slots' ∧
      Holds o (o.written lfb) m₀ m' (shown o lfb mem p'.canvas) := by
  have kept := string.agree h.frame
  have next : u64 (incInt i) ≤ format.bytes.length := by
    unfold incInt u64 at *
    split <;> omega
  have here : m (byteAt ptr i) = format.charAt i := kept.char (Nat.le_of_lt below)
  have later : m (byteAt ptr (incInt i)) = format.charAt (incInt i) := kept.char next
  have number (v : Nat) : -2147483648 ≤ int32 v ∧ int32 v < 2147483648 := by
    unfold int32
    split <;> omega
  unfold Objects.step
  rw [here, later]
  cases step_iteration run with
  | plain asked =>
    rw [asked]
    refine ⟨slots, _, rfl, args, ?_⟩
    have buffer : span o.terminated 2 ⊆ o.buffers :=
      Set.subset_union_left.trans Set.subset_union_right
    exact char_written apart placed apart.terminated buffer _ color fits h
  | string asked given =>
    rw [given] at args
    obtain ⟨slot, slots, first, others, rfl⟩ := List.forall₂_cons_left_iff.mp args
    obtain ⟨held, left⟩ := string_written apart placed first color fits h
    rw [asked]
    refine ⟨slots, _, rfl, ?_, held⟩
    rw [left]
    exact others
  | @decimal v rest asked given =>
    rw [given] at args
    obtain ⟨slot, slots, first, others, rfl⟩ := List.forall₂_cons_left_iff.mp args
    obtain rfl : slot = v := first
    obtain ⟨lo, hi⟩ := number slot
    have buffer : span o.decString 80 ⊆ o.buffers :=
      Set.subset_union_left.trans Set.subset_union_left
    rw [asked]
    refine ⟨slots, _, rfl, others, ?_⟩
    apply number_written apart placed apart.decString buffer _ _ color fits h
    · rw [dec2str_text _ lo hi, dec2str_text _ lo hi]
    · rw [dec2str_text _ lo hi, ← decTape_reverse, List.length_reverse]
      exact decTape_short lo hi
  | @hex v rest asked given =>
    rw [given] at args
    obtain ⟨slot, slots, first, others, rfl⟩ := List.forall₂_cons_left_iff.mp args
    obtain rfl : slot = v := first
    have word : u32 (int32 slot) < 4294967296 := by
      rw [u32_int32]
      omega
    have buffer : span o.hexString 80 ⊆ o.buffers :=
      Set.subset_union_right.trans Set.subset_union_left
    rw [asked]
    refine ⟨slots, _, rfl, others, ?_⟩
    apply number_written apart placed apart.hexString buffer _ _ color fits h
    · rw [hex2str_text _ word, hex2str_text _ word]
    · rw [hex2str_text _ word]
      exact Nat.lt_of_le_of_lt (length_hexText word) (by omega)

/-- **The loop of `log`.** -/
theorem scan_holds {format : CString} {ptr : Nat}
    (string : StringAt (o.written lfb) m₀ ptr format)
    (counted : format.bytes.length < 2147483648) (color : Nat) {mem : Mem} {p' : Printer}
    (fits : ∀ a ∈ p'.canvas.accesses, Fits o lfb font (o.written lfb) m₀ a) :
    ∀ {fuel : Nat} {i : Int} {m : Mem} {p : Printer} {slots : List Nat},
      List.Forall₂ (ArgAt (o.written lfb) m₀) p.args slots →
      Holds o (o.written lfb) m₀ m (shown o lfb mem p.canvas) →
      p.scan lfb font format color fuel i = some p' →
      ∃ slots' m', o.scan ptr color fuel i slots m = some (slots', m') ∧
        List.Forall₂ (ArgAt (o.written lfb) m₀) p'.args slots' ∧
        Holds o (o.written lfb) m₀ m' (shown o lfb mem p'.canvas) := by
  intro fuel
  induction fuel with
  | zero =>
    intro i m p slots args h run
    cases run
    exact ⟨slots, m, rfl, args, h⟩
  | succ fuel ih =>
    intro i m p slots args h run
    rw [Printer.scan] at run
    rw [Objects.scan, strlen_eq (string.agree h.frame)]
    split
    · next below =>
      rw [if_pos below] at run
      obtain ⟨⟨i₁, p₁⟩, first, later⟩ := Option.bind_eq_some_iff.mp run
      have drawn : ∀ a ∈ p₁.canvas.accesses, Fits o lfb font (o.written lfb) m₀ a :=
        fun a listed => fits a (scan_accesses later listed)
      obtain ⟨slots₁, m₁, step, args₁, h₁⟩ :=
        step_holds apart placed string counted below color args h first drawn
      rw [step]
      exact ih args₁ h₁ later
    · next past =>
      rw [if_neg past] at run
      cases run
      exact ⟨slots, m, rfl, args, h⟩

/-- **A call of `log`.** -/
theorem log_holds {format : CString} {ptr : Nat}
    (string : StringAt (o.written lfb) m₀ ptr format)
    (counted : format.bytes.length < 2147483648) {status : Option Status}
    (label : ∀ status, StringAt (o.written lfb) m₀ (o.label status) (statusPrefix status))
    {args : List Arg} {slots : List Nat}
    (given : List.Forall₂ (ArgAt (o.written lfb) m₀) args slots) {m mem : Mem} {p p' : Printer}
    (h : Holds o (o.written lfb) m₀ m (shown o lfb mem p.canvas))
    (run : p.log lfb font format status args = some p')
    (fits : ∀ a ∈ p'.canvas.accesses, Fits o lfb font (o.written lfb) m₀ a) :
    ∃ slots' m', o.log ptr status slots m = some (slots', m') ∧
      Holds o (o.written lfb) m₀ m' (shown o lfb mem p'.canvas) := by
  unfold Printer.log at run
  unfold Objects.log
  cases status with
  | none =>
    obtain ⟨slots', m', scan, _, held⟩ :=
      scan_holds apart placed string counted (statusColor none) fits
        (p := { p with args := args }) given h run
    exact ⟨slots', m', scan, held⟩
  | some status =>
    have drawn := fun a listed => fits a (scan_accesses run listed)
    have first := kwrite_written apart placed ((label status).agree h.frame |>.mono
      Set.subset_union_left) (statusColor (some status)) drawn h
    obtain ⟨slots', m', scan, _, held⟩ :=
      scan_holds apart placed string counted (statusColor (some status)) fits
        (p := ({ p with args := args } : Printer).kwrite lfb font (statusColor (some status))
          (statusPrefix status)) given first run
    exact ⟨slots', m', scan, held⟩

/-- **A call of `log` types its text**, wherever the cursor is. -/
theorem log_text
    (label : ∀ status, StringAt (o.written lfb) m₀ (o.label status) (statusPrefix status))
    {format : CString} {ptr : Nat} (string : StringAt (o.written lfb) m₀ ptr format)
    (counted : format.bytes.length < 2147483648) (status : Option Status) {args : List Arg}
    {slots : List Nat} (given : List.Forall₂ (ArgAt (o.written lfb) m₀) args slots)
    (matched : Matches format.bytes args)
    (short : ∀ str, .str str ∈ args → str.bytes.length ≤ 2147483648) {m mem : Mem} {c : Canvas}
    (fits : ∀ a ∈ (c.typed lfb font (colored (statusColor status)
      (prefixText status ++ expand format.bytes args))).accesses,
        Fits o lfb font (o.written lfb) m₀ a)
    (h : Holds o (o.written lfb) m₀ m (shown o lfb mem c)) :
    ∃ m', (o.log ptr status slots m).map Prod.snd = some m' ∧
      Holds o (o.written lfb) m₀ m' (shown o lfb mem (c.typed lfb font
        (colored (statusColor status) (prefixText status ++ expand format.bytes args)))) := by
  obtain ⟨p, run, _, canvas⟩ := Printer.log_type lfb font status matched counted short
    ⟨c, fun _ => 0, fun _ => 0, []⟩ []
  rw [List.append_nil] at run
  have typed : p.canvas = c.typed lfb font _ :=
    canvas.trans (KessOS.Canvas.typed_colored lfb font _ _ _).symm
  rw [← typed] at fits
  obtain ⟨slots', m', result, held⟩ :=
    log_holds apart placed string counted label given h run fits
  rw [typed] at held
  refine ⟨m', ?_, held⟩
  rw [result]
  rfl

/-! ## Formats in a buffer -/

/-- A character goes into one array, and on to the screen. -/
theorem char_agree {m : Mem} {array : Nat} (inside : array + 2 ≤ 18446744073709551616)
    (buffer : span array 2 ⊆ o.buffers) (chr : UInt8) (color : Nat) {mem : Mem} {c : Canvas}
    (fits : ∀ a ∈ (c.kwrite lfb font (.terminated chr) color).accesses,
      Fits o lfb font (o.written lfb) m₀ a)
    (h : Holds o (o.written lfb) m₀ m (shown o lfb mem c)) :
    AgreeOff (o.touched lfb ∪ span array 2) m
      (kwrite o.canvas array color (Objects.terminate array chr m)) := by
  have touched : o.touched lfb ⊆ o.written lfb := Set.subset_union_left
  have put := terminate_agree m chr array
  have held := h.buffer apart (put.mono buffer)
  have drawn := (kwrite_holds ((placed.agree held.frame).mono touched) apart (Set.Subset.refl _)
    (terminate_at m chr inside (apart.buffers.mono_left buffer)) color
    (fun a listed => ((fits a listed).agree held.frame).mono touched) (held.restart _)).frame
  exact (put.mono Set.subset_union_right).trans (drawn.mono Set.subset_union_left)

/-- **A format without `%`** may lie in a static buffer, which `log` does not write then. -/
theorem plain_holds {format : CString} {ptr : Nat} (plain : ascii '%' ∉ format.bytes)
    (counted : format.bytes.length < 2147483648) (color : Nat) {mem : Mem} {p' : Printer}
    (fits : ∀ a ∈ p'.canvas.accesses, Fits o lfb font (o.written lfb) m₀ a) :
    ∀ {fuel : Nat} {i : Int} {m : Mem} {p : Printer},
      StringAt (o.touched lfb ∪ span o.terminated 2) m ptr format →
      Holds o (o.written lfb) m₀ m (shown o lfb mem p.canvas) →
      p.scan lfb font format color fuel i = some p' →
      ∃ m', o.scan ptr color fuel i [] m = some ([], m') ∧
        Holds o (o.written lfb) m₀ m' (shown o lfb mem p'.canvas) := by
  have buffer : span o.terminated 2 ⊆ o.buffers :=
    Set.subset_union_left.trans Set.subset_union_right
  intro fuel
  induction fuel with
  | zero =>
    intro i m p string h run
    cases run
    exact ⟨m, rfl, h⟩
  | succ fuel ih =>
    intro i m p string h run
    rw [Printer.scan] at run
    rw [Objects.scan, strlen_eq string]
    split
    · next below =>
      rw [if_pos below] at run
      obtain ⟨⟨i₁, p₁⟩, first, later⟩ := Option.bind_eq_some_iff.mp run
      have drawn : ∀ a ∈ p₁.canvas.accesses, Fits o lfb font (o.written lfb) m₀ a :=
        fun a listed => fits a (scan_accesses later listed)
      have ordinary : specifier (format.charAt i) (format.charAt (incInt i)) = none := by
        rw [specifier, if_neg]
        intro percent
        rw [CString.charAt, List.getD_eq_getElem _ _ below] at percent
        exact plain (percent ▸ List.getElem_mem below)
      have next : u64 (incInt i) ≤ format.bytes.length := by
        unfold incInt u64 at *
        split <;> omega
      cases step_iteration first with
      | plain asked =>
        have held := char_written apart placed apart.terminated buffer _ color drawn h
        have kept := char_agree apart placed apart.terminated buffer _ color drawn h
        obtain ⟨m', scan, result⟩ := ih (string.agree kept) held later
        refine ⟨m', ?_, result⟩
        have here : m (byteAt ptr i) = format.charAt i := string.char (Nat.le_of_lt below)
        have ahead : m (byteAt ptr (incInt i)) = format.charAt (incInt i) := string.char next
        unfold Objects.step
        rw [here, ahead, ordinary]
        exact scan
      | string asked given =>
        rw [ordinary] at asked
        cases asked
      | decimal asked given =>
        rw [ordinary] at asked
        cases asked
      | hex asked given =>
        rw [ordinary] at asked
        cases asked
    · next past =>
      rw [if_neg past] at run
      cases run
      exact ⟨m, rfl, h⟩

end

end KessOS.InMemory
