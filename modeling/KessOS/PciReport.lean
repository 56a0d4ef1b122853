import KessOS.Painter
import KessOS.Pci

/-!
# The report on PCI functions

Each function that answers has a line on the screen. Twenty lines are a page:
the visit of another function, whether it answers or not, clears the screen.

* `enumerate_paged`: the lines since the screen was last cleared;
* `report_shows`: what `pci_enumerate_and_log` leaves on the screen.
-/

namespace KessOS

/-- A string literal of the program. -/
def CString.ofString (s : String) : CString :=
  if h : 0 ∉ s.toList.map ascii ∧ (s.toList.map ascii).length < 9223372036854775808 then
    ⟨s.toList.map ascii, h.1, h.2⟩
  else .literal ""

namespace Pci

/-! ## Events on the screen -/

def deviceFormat : CString :=
  .literal "Device found with bus %d, slot %d, device ID %x, type: %s\n"

def foundFormat : CString := .literal "%d devices found!\n"

def deviceArgs (bus slot deviceId : Nat) (type : String) : List Arg :=
  [.word bus, .word slot, .word deviceId, .str (.ofString type)]

section
variable (lfb : Framebuffer) (font : Psf1Font) (base : Nat)

def Event.Draws (s s' : Screen) : Event → Prop
  | .clearScreen => s' = s.clearScreen lfb base 0
  | .device bus slot _ deviceId type => ∃ decString hexString,
    s.log lfb font base deviceFormat (some .info) (deviceArgs bus slot deviceId type) decString
      hexString = some s'
  | .found deviceCount => ∃ decString hexString,
    s.log lfb font base foundFormat (some .info) [.word deviceCount] decString hexString = some s'

/-- One event after the other. -/
def Draws : List Event → Screen → Screen → Prop
  | [], s, s' => s' = s
  | e :: rest, s, s' => ∃ t, e.Draws lfb font base s t ∧ Draws rest t s'

end

/-- What an event adds to the text. -/
def Event.line : Event → List UInt8
  | .clearScreen => []
  | .device bus slot _ deviceId type =>
    prefixText (some .info) ++ expand deviceFormat.bytes (deviceArgs bus slot deviceId type)
  | .found deviceCount => prefixText (some .info) ++ expand foundFormat.bytes [.word deviceCount]

/-- What it does to a screen. -/
def Event.draw (lfb : Framebuffer) (font : Psf1Font) (base : Nat) (s : Screen) (e : Event) :
    Screen :=
  match e with
  | .clearScreen => s.clearScreen lfb base 0
  | e => s.typed lfb font base (colored 0x00FF00 e.line)

/-! ## Lines -/

open Screen (Lines ascii_of_all)

theorem typeName_plain {type : String} (known : type ∈ "" :: "RESERVED" :: baseClassTypes) :
    (CString.ofString type).bytes.length ≤ 35 ∧
      Canvas.newlineChar ∉ (CString.ofString type).bytes ∧
      (CString.ofString type).bytes.all (·.toNat < 128) = true := by
  revert type
  decide +kernel

theorem baseclassType_known (c : ConfigSpace) (bus slot func : Nat) :
    baseclassType c bus slot func ∈ "" :: "RESERVED" :: baseClassTypes := by
  unfold baseclassType
  split
  · simp
  · rw [List.getD_eq_getElem?_getD]
    cases found : baseClassTypes[pciGetClassid c bus slot func]? with
    | none => simp
    | some type =>
      have listed := List.mem_of_getElem? found
      simp [listed]

theorem pciGetDeviceId_lt (c : ConfigSpace) (bus slot func : Nat) :
    pciGetDeviceId c bus slot func < 65536 :=
  Nat.lt_of_le_of_lt Nat.and_le_right (by decide)

theorem deviceFormat_expand (bus slot deviceId : Nat) (type : String) :
    expand deviceFormat.bytes (deviceArgs bus slot deviceId type) =
      "Device found with bus ".toList.map ascii ++ (decText (int32 bus) ++
        (", slot ".toList.map ascii ++ (decText (int32 slot) ++
          (", device ID ".toList.map ascii ++ (hexText (deviceId % 4294967296) ++
            (", type: ".toList.map ascii ++
              ((CString.ofString type).bytes ++ [Canvas.newlineChar]))))))) := rfl

/-- The line of a device has 102 characters at most. -/
theorem device_lines {bus slot deviceId : Nat} {type : String} (hb : bus < 255) (hs : slot < 32)
    (id : deviceId < 65536) (known : type ∈ "" :: "RESERVED" :: baseClassTypes) (func : Nat) :
    Lines 816 1 (Event.line (.device bus slot func deviceId type)) := by
  obtain ⟨named, single, ascii⟩ := typeName_plain known
  have busShort := length_decText (show 0 < 3 by omega) (show bus < 10 ^ 3 by omega)
  have slotShort := length_decText (show 0 < 2 by omega) (show slot < 10 ^ 2 by omega)
  have idShort := length_hexText_le (show 2 ≤ 4 by omega) (show deviceId < 16 ^ 4 by omega)
  have int (n : Nat) (small : n < 256) : int32 n = n := by
    rw [int32, if_pos (by omega), Nat.mod_eq_of_lt (by omega)]
  rw [Event.line, deviceFormat_expand, int bus (by omega), int slot (by omega),
    Nat.mod_eq_of_lt (show deviceId < 4294967296 by omega)]
  simp only [← List.append_assoc]
  apply Screen.lines_line
  · simp only [List.mem_append, decText_line, hexText_line, single, or_false]
    decide
  · have fixed : (prefixText (some .info)).length = 7 ∧
        ("Device found with bus ".toList.map KessOS.ascii).length = 22 ∧
        (", slot ".toList.map KessOS.ascii).length = 7 ∧
        (", device ID ".toList.map KessOS.ascii).length = 12 ∧
        (", type: ".toList.map KessOS.ascii).length = 8 := by decide
    simp only [List.length_append]
    omega
  · simp only [List.forall_mem_append]
    exact ⟨⟨⟨⟨⟨⟨⟨⟨ascii_of_all (by decide), ascii_of_all (by decide)⟩, decText_ascii _⟩,
      ascii_of_all (by decide)⟩, decText_ascii _⟩, ascii_of_all (by decide)⟩, hexText_ascii _⟩,
      ascii_of_all (by decide)⟩, ascii_of_all ascii⟩

theorem found_lines {deviceCount : Nat} (few : deviceCount ≤ 65280) :
    Lines 816 1 (Event.line (.found deviceCount)) := by
  have short := length_decText (show 0 < 5 by omega) (show deviceCount < 10 ^ 5 by omega)
  have int : int32 deviceCount = deviceCount := by
    rw [int32, if_pos (by omega), Nat.mod_eq_of_lt (by omega)]
  have text : expand foundFormat.bytes [.word deviceCount] =
      decText (int32 deviceCount) ++
        (" devices found!".toList.map KessOS.ascii ++ [Canvas.newlineChar]) := rfl
  rw [Event.line, text, int]
  simp only [← List.append_assoc]
  apply Screen.lines_line
  · simp only [List.mem_append, decText_line, or_false]
    decide
  · have fixed : (prefixText (some .info)).length = 7 ∧
        (" devices found!".toList.map KessOS.ascii).length = 15 := by decide
    simp only [List.length_append]
    omega
  · simp only [List.forall_mem_append]
    exact ⟨⟨ascii_of_all (by decide), decText_ascii _⟩, ascii_of_all (by decide)⟩

/-- Events as the loops make them. -/
def Event.Fits : Event → Prop
  | .clearScreen => True
  | .device bus slot _ deviceId type =>
    bus < 255 ∧ slot < 32 ∧ deviceId < 65536 ∧ type ∈ "" :: "RESERVED" :: baseClassTypes
  | .found deviceCount => deviceCount ≤ 65280

theorem Event.Fits.lines {e : Event} (h : e.Fits) (kept : e ≠ .clearScreen) :
    Lines 816 1 e.line := by
  cases e with
  | clearScreen => exact absurd rfl kept
  | device bus slot func deviceId type => exact device_lines h.1 h.2.1 h.2.2.1 h.2.2.2 func
  | found deviceCount => exact found_lines h

theorem events_lines {events : List Event} (fits : ∀ e ∈ events, e.Fits)
    (kept : ∀ e ∈ events, e ≠ .clearScreen) :
    Lines 816 events.length (events.flatMap Event.line) := by
  induction events with
  | nil => exact ⟨trivial, rfl, rfl, fun c none => absurd none List.not_mem_nil⟩
  | cons e rest ih =>
    obtain ⟨first, later⟩ := List.forall_mem_cons.mp fits
    obtain ⟨line, lines⟩ := List.forall_mem_cons.mp kept
    rw [List.flatMap_cons, List.length_cons, Nat.add_comm]
    exact (first.lines line).append (ih later lines)

section
variable {lfb : Framebuffer} {font : Psf1Font} {base : Nat}

theorem Event.Fits.draws_iff {e : Event} (h : e.Fits) {s s' : Screen} :
    e.Draws lfb font base s s' ↔ s' = e.draw lfb font base s := by
  cases e with
  | clearScreen => exact Iff.rfl
  | device bus slot func deviceId type =>
    have matched : Matches deviceFormat.bytes (deviceArgs bus slot deviceId type) := by
      have asked : specifiers deviceFormat.bytes = [.decimal, .decimal, .hex, .string] := by decide
      rw [Matches, asked]
      exact .cons trivial (.cons trivial (.cons trivial (.cons trivial .nil)))
    have short (str : CString) (listed : .str str ∈ deviceArgs bus slot deviceId type) :
        str.bytes.length ≤ 2147483648 := by
      have named := (typeName_plain h.2.2.2).1
      obtain rfl : str = .ofString type := by simpa [deviceArgs] using listed
      omega
    exact Screen.log_iff font (some .info) matched (by decide) short
  | found deviceCount =>
    have matched : Matches foundFormat.bytes [.word deviceCount] := by
      have asked : specifiers foundFormat.bytes = [.decimal] := by decide
      rw [Matches, asked]
      exact .cons trivial .nil
    have short (str : CString) (listed : .str str ∈ [Arg.word deviceCount]) :
        str.bytes.length ≤ 2147483648 := by simp at listed
    exact Screen.log_iff font (some .info) matched (by decide) short

theorem draws_iff {events : List Event} (fits : ∀ e ∈ events, e.Fits) {s s' : Screen} :
    Draws lfb font base events s s' ↔ s' = events.foldl (Event.draw lfb font base) s := by
  induction events generalizing s with
  | nil => exact Iff.rfl
  | cons e rest ih =>
    obtain ⟨first, later⟩ := List.forall_mem_cons.mp fits
    rw [List.foldl_cons, ← ih later]
    constructor
    · rintro ⟨t, draws, rest⟩
      rwa [← first.draws_iff.mp draws]
    · exact fun rest => ⟨_, first.draws_iff.mpr rfl, rest⟩

/-- Lines are typed one after the other. -/
theorem foldl_draw {events : List Event} (kept : ∀ e ∈ events, e ≠ .clearScreen) (s : Screen) :
    events.foldl (Event.draw lfb font base) s =
      s.typed lfb font base (colored 0x00FF00 (events.flatMap Event.line)) := by
  induction events generalizing s with
  | nil => rfl
  | cons e rest ih =>
    obtain ⟨first, later⟩ := List.forall_mem_cons.mp kept
    have typed : e.draw lfb font base s = s.typed lfb font base (colored 0x00FF00 e.line) := by
      cases e with
      | clearScreen => exact absurd rfl first
      | device bus slot func deviceId type => rfl
      | found deviceCount => rfl
    rw [List.foldl_cons, typed, ih later, List.flatMap_cons, colored_append, Screen.typed_append]

end

/-! ## Pages -/

def ConfigSpace.event (c : ConfigSpace) (f : Function) : Event :=
  .device f.1 f.2.1 f.2.2 (pciGetDeviceId c f.1 f.2.1 f.2.2) (baseclassType c f.1 f.2.1 f.2.2)

/-- The lines since the screen was cleared are the last `tmp` of those found. -/
structure Lined (c : ConfigSpace) (found : List Function) (e : Enumeration) : Prop where
  count : e.deviceCount = found.length
  least : e.tmp ≤ e.deviceCount
  whole : (e.deviceCount - e.tmp) % 20 = 0
  fits : ∀ x ∈ e.events, x.Fits
  lines : ∃ before,
    e.events = before ++ (found.drop (e.deviceCount - e.tmp)).map c.event ∧
      ((e.tmp = e.deviceCount ∧ before = []) ∨
        (e.tmp < e.deviceCount ∧ ∃ older, before = older ++ [.clearScreen]))

/-- With functions visited so far. -/
structure Paged (c : ConfigSpace) (seen : List Function) (e : Enumeration) : Prop where
  lined : Lined c (seen.filter c.answers) e
  most : e.tmp ≤ 20
  last : ∀ f, seen.getLast? = some f →
    (e.tmp = 20 → c.answers f = true) ∧ (c.answers f = true → 0 < e.tmp)

theorem Lined.page {c : ConfigSpace} {found : List Function} {e : Enumeration}
    (h : Lined c found e) (most : e.tmp ≤ 20) : Lined c found e.page ∧ e.page.tmp < 20 := by
  unfold Enumeration.page
  split
  · next full =>
    have count := h.count
    have least := h.least
    have whole := h.whole
    refine ⟨⟨count, Nat.zero_le _, ?_, ?_, ?_⟩, Nat.succ_pos 19⟩
    · show (e.deviceCount - 0) % 20 = 0
      omega
    · exact List.forall_mem_append.mpr ⟨h.fits, List.forall_mem_singleton.mpr trivial⟩
    · refine ⟨e.events ++ [.clearScreen], ?_, Or.inr ⟨?_, e.events, rfl⟩⟩
      · show _ = _ ++ (found.drop (e.deviceCount - 0)).map c.event
        rw [Nat.sub_zero, count, List.drop_length, List.map_nil, List.append_nil]
      · show 0 < e.deviceCount
        omega
  · next room => exact ⟨h, by omega⟩

theorem Lined.device {c : ConfigSpace} {found : List Function} {e : Enumeration}
    (h : Lined c found e) {f : Function} (inside : f.1 < 255 ∧ f.2.1 < 32) :
    Lined c (found ++ [f]) ⟨e.deviceCount + 1, e.tmp + 1, e.events ++ [c.event f]⟩ := by
  have count := h.count
  have least := h.least
  have kept : e.deviceCount + 1 - (e.tmp + 1) = e.deviceCount - e.tmp := by omega
  obtain ⟨before, events, cleared⟩ := h.lines
  constructor
  · rw [List.length_append, ← count]
    rfl
  · exact Nat.succ_le_succ least
  · dsimp only
    rw [kept]
    exact h.whole
  · refine List.forall_mem_append.mpr ⟨h.fits, List.forall_mem_singleton.mpr ?_⟩
    exact ⟨inside.1, inside.2, pciGetDeviceId_lt c _ _ _, baseclassType_known c _ _ _⟩
  · refine ⟨before, ?_, ?_⟩
    · dsimp only
      rw [kept, List.drop_append_of_le_length (by omega), List.map_append, events,
        List.append_assoc]
      rfl
    · dsimp only
      rcases cleared with ⟨all, none⟩ | ⟨some, older⟩
      · exact Or.inl ⟨by omega, none⟩
      · exact Or.inr ⟨by omega, older⟩

/-- One more function. -/
theorem visit_paged {c : ConfigSpace} {seen : List Function} {e : Enumeration}
    (h : Paged c seen e) {f : Function} (inside : f.1 < 255 ∧ f.2.1 < 32 ∧ f.2.2 < 8) :
    Paged c (seen ++ [f]) (e.visit c f.1 f.2.1 f.2.2) := by
  obtain ⟨lined, room⟩ := h.lined.page h.most
  have answers := vendorIsValid_eq c (show f.1 < 256 by omega) inside.2.1 inside.2.2
  unfold Enumeration.visit
  dsimp only
  rw [answers]
  cases there : c.answers f with
  | true =>
    rw [if_pos rfl]
    constructor
    · rw [List.filter_append, List.filter_singleton, there]
      exact lined.device ⟨inside.1, inside.2.1⟩
    · exact room
    · intro g last
      rw [List.getLast?_concat] at last
      cases last
      exact ⟨fun _ => there, fun _ => Nat.succ_pos _⟩
  | false =>
    rw [if_neg (by simp)]
    constructor
    · rw [List.filter_append, List.filter_singleton, there]
      simpa using lined
    · exact Nat.le_of_lt room
    · intro g last
      rw [List.getLast?_concat] at last
      cases last
      exact ⟨fun full => absurd full (Nat.ne_of_lt room), fun answers => by simp [there] at answers⟩

/-- **After any functions, the screen has the lines since it was cleared.** -/
theorem enumerate_paged (c : ConfigSpace) (fs : List Function)
    (inside : ∀ f ∈ fs, f.1 < 255 ∧ f.2.1 < 32 ∧ f.2.2 < 8) :
    Paged c fs (fs.foldl (fun e f => e.visit c f.1 f.2.1 f.2.2) ⟨0, 0, []⟩) := by
  induction fs using List.reverseRecOn with
  | nil =>
    refine ⟨⟨rfl, Nat.le_refl _, rfl, ?_, [], rfl, Or.inl ⟨rfl, rfl⟩⟩, Nat.zero_le 20, ?_⟩
    · exact fun x none => absurd none List.not_mem_nil
    · intro f last
      cases last
  | append_singleton fs f ih =>
    obtain ⟨before, last⟩ := List.forall_mem_append.mp inside
    rw [List.foldl_append]
    exact visit_paged (ih before) (last f List.mem_cons_self)

/-! ## What is left -/

/-- The functions that have a line. -/
def ConfigSpace.devices (c : ConfigSpace) : List Function := (busFunctions 255).filter c.answers

/-- How many of the lines are left. A full page stays where no function is
visited after it. -/
def ConfigSpace.shown (c : ConfigSpace) : Nat :=
  if c.devices.length % 20 = 0 ∧ c.answers (254, 31, 7) = true then 20
  else c.devices.length % 20

def reportText (c : ConfigSpace) : Typed :=
  colored 0x00FF00
    ((((c.devices.drop (c.devices.length - c.shown)).map c.event) ++
      [Event.found c.devices.length]).flatMap Event.line)

theorem busFunctions_last : (busFunctions 255).getLast? = some (254, 31, 7) := by
  have split : busFunctions 255 = busFunctions 254 ++
      (List.range 32 ×ˢ List.range 8).map (Prod.mk 254) := by
    simp only [busFunctions, SProd.sprod, List.product]
    rw [show List.range 255 = List.range 254 ++ [254] from List.range_succ, List.flatMap_append,
      List.flatMap_singleton]
  have last : ((List.range 32 ×ˢ List.range 8).map (Prod.mk 254)).getLast? =
      some (254, 31, 7) := by decide +kernel
  rw [split, List.getLast?_append, last, Option.some_or]

theorem devices_few (c : ConfigSpace) : c.devices.length ≤ 65280 := by
  have all := List.length_filter_le c.answers (busFunctions 255)
  rwa [busFunctions, List.length_product, List.length_product, List.length_range,
    List.length_range, List.length_range] at all

/-- **The last page.** -/
theorem enumerate_shown (c : ConfigSpace) :
    Lined c c.devices (enumerate c) ∧ (enumerate c).tmp = c.shown := by
  have paged := enumerate_paged c (busFunctions 255)
    fun f listed => mem_busFunctions.mp listed
  rw [← enumerate_eq] at paged
  have lined := paged.lined
  have count : (enumerate c).deviceCount = c.devices.length := lined.count
  obtain ⟨full, some⟩ := paged.last _ busFunctions_last
  refine ⟨lined, ?_⟩
  have least := lined.least
  have whole := lined.whole
  have most := paged.most
  unfold ConfigSpace.shown
  rw [← count]
  split
  · next answered =>
    have pos := some answered.2
    omega
  · next other =>
    by_cases page : (enumerate c).tmp = 20
    · exact absurd ⟨by omega, full page⟩ other
    · omega

section
variable {lfb : Framebuffer} {base : Nat}

/-- **What is on the screen in the end**: the last page in black, once a page was
full; before that, every line behind what was there. -/
theorem report_shows (c : ConfigSpace) (font : Psf1Font) (wide : 816 ≤ lfb.width)
    (tall : 491 ≤ lfb.height) (slim : lfb.ppsl < 1073741824) (short : lfb.height < 2147483648)
    (fits : base + 4 * (lfb.height * lfb.ppsl) < 18446744073709551616) (s : Screen) :
    (∃ s', Draws lfb font base (pciEnumerateAndLog c) s s') ∧
      ∀ s', Draws lfb font base (pciEnumerateAndLog c) s s' →
        (c.shown < c.devices.length →
          Pixels.Shows lfb font (Canvas.typedLetters lfb font Screen.home (reportText c))
            (fun _ => 0) (pixelsOf base s'.mem)) ∧
        (c.shown = c.devices.length → s' = s.typed lfb font base (reportText c)) := by
  obtain ⟨lined, shown⟩ := enumerate_shown c
  have few := devices_few c
  have count := lined.count
  have least := lined.least
  obtain ⟨before, events, cleared⟩ := lined.lines
  have page : pciEnumerateAndLog c = before ++
      ((c.devices.drop (c.devices.length - c.shown)).map c.event ++
        [.found c.devices.length]) := by
    rw [pciEnumerateAndLog, events, count, shown, List.append_assoc]
  have fit : ∀ e ∈ pciEnumerateAndLog c, e.Fits := by
    refine List.forall_mem_append.mpr ⟨lined.fits, List.forall_mem_singleton.mpr ?_⟩
    rw [count]
    exact few
  have kept : ∀ e ∈ (c.devices.drop (c.devices.length - c.shown)).map c.event ++
      [Event.found c.devices.length], e ≠ .clearScreen := by
    refine List.forall_mem_append.mpr ⟨?_, List.forall_mem_singleton.mpr ?_⟩
    · rintro e listed rfl
      obtain ⟨f, _, same⟩ := List.mem_map.mp listed
      cases same
    · intro same
      cases same
  have drawn (s' : Screen) : Draws lfb font base (pciEnumerateAndLog c) s s' ↔
      s' = (before.foldl (Event.draw lfb font base) s).typed lfb font base (reportText c) := by
    rw [draws_iff fit, page, List.foldl_append, foldl_draw kept, reportText]
  refine ⟨⟨_, (drawn _).mpr rfl⟩, fun s' draws => ?_⟩
  rw [(drawn s').mp draws]
  rcases cleared with ⟨all, none⟩ | ⟨some, older, rfl⟩
  · exact ⟨fun less => by omega, fun _ => by rw [none]; rfl⟩
  · refine ⟨fun _ => ?_, fun same => by omega⟩
    rw [page] at fit
    have lines := events_lines (List.forall_mem_append.mp fit).2 kept
    rw [List.length_append, List.length_map, List.length_drop, List.length_singleton] at lines
    have plain : ∀ k ∈ reportText c, k.1.toNat < 128 ∧ k.2 < 4294967296 := by
      intro k listed
      obtain ⟨char, color⟩ := mem_colored.mp listed
      exact ⟨lines.ascii k.1 char, by omega⟩
    have most : c.shown ≤ 20 := by
      unfold ConfigSpace.shown
      split <;> omega
    rw [List.foldl_append]
    apply Screen.column_shows font base (by omega) slim short fits _ (Nat.succ_pos _) plain
    · rw [reportText, fst_colored]
      exact lines.narrow.mono wide
    · rw [reportText, fst_colored, lines.count]
      omega

end

/-! ## A machine where everything answers -/

def everywhere : ConfigSpace where
  reg := fun _ _ _ _ => 0x12378086
  word := fun _ _ _ _ => by decide

def fullHd : Framebuffer where
  width := 1920
  height := 1080
  ppsl := 1920
  fits := Nat.le_refl _
  heightWord := by decide
  ppslWord := by decide

theorem everywhere_devices : everywhere.devices.length = 65280 := by
  have all : everywhere.devices = busFunctions 255 :=
    List.filter_eq_self.mpr fun f _ => (by decide : everywhere.answers (0, 0, 0) = true)
  rw [all, busFunctions, List.length_product, List.length_product, List.length_range,
    List.length_range, List.length_range]

/-- The last twenty lines are left. -/
theorem report_shows_everywhere :
    ∃ s', Draws fullHd Canvas.blankFont 0xC0000000 (pciEnumerateAndLog everywhere)
        ⟨⟨0, 55, 0⟩, fun _ => 0⟩ s' ∧
      Pixels.Shows fullHd Canvas.blankFont
        (Canvas.typedLetters fullHd Canvas.blankFont Screen.home (reportText everywhere))
        (fun _ => 0) (pixelsOf 0xC0000000 s'.mem) := by
  have left (c : ConfigSpace) (less : c.shown < c.devices.length) :
      ∃ s', Draws fullHd Canvas.blankFont 0xC0000000 (pciEnumerateAndLog c)
          ⟨⟨0, 55, 0⟩, fun _ => 0⟩ s' ∧
        Pixels.Shows fullHd Canvas.blankFont
          (Canvas.typedLetters fullHd Canvas.blankFont Screen.home (reportText c)) (fun _ => 0)
          (pixelsOf 0xC0000000 s'.mem) := by
    obtain ⟨⟨s', draws⟩, shows⟩ := @report_shows fullHd 0xC0000000 c Canvas.blankFont
      (by decide) (by decide) (by decide) (by decide) (by decide)
      ⟨⟨0, 55, 0⟩, fun _ => 0⟩
    exact ⟨s', draws, (shows s' draws).1 less⟩
  apply left
  rw [ConfigSpace.shown, everywhere_devices]
  decide

end Pci

end KessOS
