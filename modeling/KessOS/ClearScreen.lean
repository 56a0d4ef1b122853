import KessOS.Bytes
import KessOS.Console
import KessOS.Pixels

/-!
# Clearing the screen

`clearScreen` goes through the scanlines with byte addresses and stores one
colour in each of their pixels.

* `clearScreen_eq`: it overwrites the bytes of the framebuffer and no others;
* `clearScreen_top`: but not those of a last line that ends where memory does;
* `storePixels_pixels`: stores in memory are writes to the pixels;
* `clearScreen_forgets`: what was on the screen and where the cursor was no
  longer matters.
-/

namespace KessOS

/-- `for (pixelPtr = pixPtrBase; pixelPtr < stop; ++pixelPtr)`. -/
def clearLine (color stop : Nat) : Nat → Nat → Mem → Mem
  | 0, _, m => m
  | fuel + 1, pixelPtr, m =>
    if pixelPtr < stop then
      clearLine color stop fuel ((pixelPtr + 4) % 18446744073709551616) (m.writeLE pixelPtr 4 color)
    else m

/-- More than the steps of four bytes through the address space. -/
def pointerFuel : Nat := 4611686018427387905

/-- `ppsl * 4` is an `unsigned int`. -/
def clearScreen (lfb : Framebuffer) (baseAddr color : Nat) (m : Mem) : Mem :=
  let bytesPerScanline := lfb.ppsl * 4 % 4294967296
  forInt u32 lfb.height
    (fun vsl m =>
      let pixPtrBase := (baseAddr + bytesPerScanline * u64 vsl) % 18446744073709551616
      clearLine color ((pixPtrBase + bytesPerScanline) % 18446744073709551616) pointerFuel
        pixPtrBase m)
    intFuel 0 m

/-! ## The bytes stored -/

/-- The bytes of one colour, over and over. -/
def colorBytes (color i : Nat) : UInt8 := UInt8.ofNat (color / 256 ^ (i % 4))

/-- Colours one after the other: a span of whole pixels goes on where another ended. -/
theorem colorBytes_append (m : Mem) (color a n k : Nat) :
    (m.blit a (4 * n) (colorBytes color)).blit (a + 4 * n) (4 * k) (colorBytes color) =
      m.blit a (4 * (n + k)) (colorBytes color) := by
  rw [Nat.mul_add, ← Mem.blit_append]
  apply Mem.blit_congr
  intro i _
  rw [colorBytes, colorBytes, Nat.mul_add_mod]

theorem writeLE_color (m : Mem) (a color : Nat) :
    m.writeLE a 4 color = m.blit a (4 * 1) (colorBytes color) := by
  apply Mem.blit_congr
  intro i hi
  rw [colorBytes, Nat.mod_eq_of_lt hi]

theorem clearLine_eq (color : Nat) {p n fuel : Nat} (top : p + 4 * n < 18446744073709551616)
    (enough : n < fuel) (m : Mem) :
    clearLine color (p + 4 * n) fuel p m = m.blit p (4 * n) (colorBytes color) := by
  induction n generalizing p fuel m with
  | zero =>
    obtain ⟨fuel, rfl⟩ := Nat.exists_eq_add_one_of_ne_zero (Nat.ne_zero_of_lt enough)
    rw [clearLine, if_neg (by omega), Nat.mul_zero, Mem.blit_zero]
  | succ n ih =>
    obtain ⟨fuel, rfl⟩ := Nat.exists_eq_add_one_of_ne_zero (Nat.ne_zero_of_lt enough)
    have stop : p + 4 * (n + 1) = p + 4 + 4 * n := by omega
    rw [clearLine, if_pos (by omega), Nat.mod_eq_of_lt (by omega), stop, ih (by omega) (by omega),
      writeLE_color, Nat.add_comm n 1, ← colorBytes_append]

section
variable {lfb : Framebuffer} {base : Nat} (narrow : lfb.ppsl < 1073741824)
include narrow

/-- The first lines, as long as their end has an address. -/
theorem clearLines_eq (color : Nat) {rows : Nat} (short : rows < 2147483648)
    (fits : base + 4 * (rows * lfb.ppsl) < 18446744073709551616) (m : Mem) :
    (List.range rows).foldl (fun m k => clearLine color
      (((base + 4 * lfb.ppsl * u64 (int32 k)) % 18446744073709551616 + 4 * lfb.ppsl) %
        18446744073709551616) pointerFuel
      ((base + 4 * lfb.ppsl * u64 (int32 k)) % 18446744073709551616) m) m =
    m.blit base (4 * (rows * lfb.ppsl)) (colorBytes color) := by
  induction rows with
  | zero => simp
  | succ rows ih =>
    have next : (rows + 1) * lfb.ppsl = rows * lfb.ppsl + lfb.ppsl := Nat.succ_mul _ _
    have here : 4 * lfb.ppsl * rows = 4 * (rows * lfb.ppsl) := by ring
    rw [List.range_succ, List.foldl_append, ih (by omega) (by omega), List.foldl_cons,
      List.foldl_nil, int32_small (by omega), u64_small (by omega), here,
      Nat.mod_eq_of_lt (by omega), Nat.mod_eq_of_lt (by omega),
      clearLine_eq color (by omega) (by unfold pointerFuel; omega), colorBytes_append, next]

variable (short : lfb.height < 2147483648)
include short

/-- `clearScreen` goes through the lines in their order. -/
theorem clearScreen_lines (color : Nat) (m : Mem) : clearScreen lfb base color m =
    (List.range lfb.height).foldl (fun m k => clearLine color
      (((base + 4 * lfb.ppsl * u64 (int32 k)) % 18446744073709551616 + 4 * lfb.ppsl) %
        18446744073709551616) pointerFuel
      ((base + 4 * lfb.ppsl * u64 (int32 k)) % 18446744073709551616) m) m := by
  have start : int32 0 = 0 := rfl
  have bytes : lfb.ppsl * 4 % 4294967296 = 4 * lfb.ppsl := by omega
  have loop := forInt_u32 (fun vsl m => clearLine color
    (((base + 4 * lfb.ppsl * u64 vsl) % 18446744073709551616 + 4 * lfb.ppsl) %
      18446744073709551616) pointerFuel ((base + 4 * lfb.ppsl * u64 vsl) % 18446744073709551616) m)
    (x := 0) lfb.heightWord m
  rw [start] at loop
  rw [clearScreen, bytes, loop, Nat.zero_mod, Nat.sub_zero]
  simp only [Nat.zero_add]
  split
  · rfl
  · next empty =>
    have none : lfb.height = 0 := by omega
    rw [none]
    rfl

/-- **The screen's bytes are overwritten with the colour.** -/
theorem clearScreen_eq (fits : base + 4 * (lfb.height * lfb.ppsl) < 18446744073709551616)
    (color : Nat) (m : Mem) : clearScreen lfb base color m =
      m.blit base (4 * (lfb.height * lfb.ppsl)) (colorBytes color) := by
  rw [clearScreen_lines narrow short, clearLines_eq narrow color short fits]

/-- At the very top of memory the last line stays: the end of its pixels is the
address 0, and no pointer is below that. -/
theorem clearScreen_top {rows : Nat} (lines : lfb.height = rows + 1) (wide : 0 < lfb.ppsl)
    (top : base + 4 * (lfb.height * lfb.ppsl) = 18446744073709551616) (color : Nat) (m : Mem) :
    clearScreen lfb base color m = m.blit base (4 * (rows * lfb.ppsl)) (colorBytes color) := by
  have next : (rows + 1) * lfb.ppsl = rows * lfb.ppsl + lfb.ppsl := Nat.succ_mul _ _
  have here : 4 * lfb.ppsl * rows = 4 * (rows * lfb.ppsl) := by ring
  rw [lines, next] at top
  have begins : (base + 4 * (rows * lfb.ppsl)) % 18446744073709551616 =
      base + 4 * (rows * lfb.ppsl) := Nat.mod_eq_of_lt (by omega)
  have stop : (base + 4 * (rows * lfb.ppsl) + 4 * lfb.ppsl) % 18446744073709551616 = 0 := by omega
  rw [clearScreen_lines narrow short, lines, List.range_succ, List.foldl_append,
    clearLines_eq narrow color (by omega) (by omega), List.foldl_cons, List.foldl_nil,
    int32_small (by omega), u64_small (by omega), here, begins, stop]
  rfl

end

/-! ## Pixels in memory -/

/-- The pixels that memory holds. -/
def pixelsOf (base : Nat) (m : Mem) : Pixels := fun i => m.read32 (u64 (base + 4 * i))

/-- Memory after the stores to some pixels, latest first. -/
def storePixels (base : Nat) (m : Mem) (writes : List (Int × Nat)) : Mem :=
  writes.foldr (fun w m => m.writeLE (u64 (base + 4 * w.1)) 4 w.2) m

/-- A pixel keeps 32 bits of what is stored. -/
def stored (w : Int × Nat) : Int × Nat := (w.1, w.2 % 4294967296)

section
variable {base n : Nat} (fits : base + 4 * n ≤ 18446744073709551616)
include fits

theorem pixel_address {i : Int} (lo : 0 ≤ i) (hi : i < n) :
    u64 (base + 4 * i) = base + 4 * i.toNat := by
  unfold u64
  omega

/-- **Stores in the framebuffer are writes to its pixels.** -/
theorem storePixels_pixels (m : Mem) {writes : List (Int × Nat)}
    (inside : ∀ w ∈ writes, 0 ≤ w.1 ∧ w.1 < n) {i : Int} (lo : 0 ≤ i) (hi : i < n) :
    pixelsOf base (storePixels base m writes) i =
      writeAll (pixelsOf base m) (writes.map stored) i := by
  induction writes with
  | nil => rfl
  | cons w writes ih =>
    obtain ⟨low, high⟩ := inside w List.mem_cons_self
    have before := ih fun w' listed => inside w' (List.mem_cons_of_mem _ listed)
    rw [List.map_cons, writeAll_cons]
    by_cases here : i = w.1
    · subst here
      rw [stored, Function.update_self]
      exact Mem.readLE_writeLE_mod _ _ 4 w.2
    · rw [stored, Function.update_of_ne here, ← before]
      apply Mem.readLE_writeLE_outside
      rw [pixel_address fits lo hi, pixel_address fits low high]
      omega

end

/-- A pixel of the cleared screen. -/
theorem clearScreen_pixel {lfb : Framebuffer} {base : Nat} (narrow : lfb.ppsl < 1073741824)
    (short : lfb.height < 2147483648)
    (fits : base + 4 * (lfb.height * lfb.ppsl) < 18446744073709551616) {color : Nat}
    (word : color < 4294967296) (m : Mem) {i : Int} (lo : 0 ≤ i)
    (hi : i < (lfb.height * lfb.ppsl : Nat)) :
    pixelsOf base (clearScreen lfb base color m) i = color := by
  have digits : Mem.readLE (colorBytes color) (4 * i.toNat) 4 =
      Mem.readLE (fun k => UInt8.ofNat (color / 256 ^ k)) 0 4 := by
    apply Mem.readLE_congr
    intro k hk
    rw [colorBytes, Nat.mul_add_mod, Nat.mod_eq_of_lt hk, Nat.zero_add]
  rw [pixelsOf, clearScreen_eq narrow short fits, pixel_address (Nat.le_of_lt fits) lo hi,
    Mem.read32, Mem.readLE_blit_inside _ _ (by omega), Nat.add_sub_cancel_left, digits,
    Mem.readLE_digits, Nat.mod_eq_of_lt (by omega)]

/-! ## Two screens -/

/-- The cursor of the canvas and the memory with the framebuffer. -/
structure Screen where
  cursor : Canvas.Cursor
  mem : Mem

namespace Screen

variable (lfb : Framebuffer) (font : Psf1Font) (base : Nat)

/-- The canvas with that cursor, before anything is drawn. -/
def start (c : Canvas.Cursor) : Canvas := ⟨c.x, c.y, c.prevX, [], []⟩

/-- What a call of `kwrite` with that colour draws. -/
def drawn (c : Canvas.Cursor) (call : CString × Nat) : Canvas :=
  (start c).kwrite lfb font call.1 call.2

def kwrite (s : Screen) (call : CString × Nat) : Screen where
  cursor := (drawn lfb font s.cursor call).cursor
  mem := storePixels base s.mem (pixelWrites lfb (drawn lfb font s.cursor call).accesses)

def clearScreen (color : Nat) (s : Screen) : Screen where
  cursor := (start s.cursor).clearScreen.cursor
  mem := KessOS.clearScreen lfb base color s.mem

def run (s : Screen) (calls : List (CString × Nat)) : Screen := calls.foldl (kwrite lfb font base) s

/-- Every pixel the calls write lies in the framebuffer. -/
def StaysInside : Canvas.Cursor → List (CString × Nat) → Prop
  | _, [] => True
  | c, call :: calls =>
    (∀ px py color, .write px py color ∈ (drawn lfb font c call).accesses →
      px < lfb.ppsl ∧ py < lfb.height) ∧
    StaysInside (drawn lfb font c call).cursor calls

/-- Calls from one cursor end at one cursor. -/
theorem run_cursor (calls : List (CString × Nat)) {s s' : Screen} (same : s.cursor = s'.cursor) :
    (run lfb font base s calls).cursor = (run lfb font base s' calls).cursor := by
  induction calls generalizing s s' with
  | nil => exact same
  | cons call calls ih =>
    apply ih
    show (drawn lfb font s.cursor call).cursor = (drawn lfb font s'.cursor call).cursor
    rw [same]

/-- Calls from one cursor keep what two framebuffers agree on. -/
theorem run_pixels (fits : base + 4 * (lfb.height * lfb.ppsl) ≤ 18446744073709551616)
    (calls : List (CString × Nat)) {s s' : Screen} (same : s.cursor = s'.cursor)
    (inside : StaysInside lfb font s.cursor calls)
    (agree : ∀ i : Int, 0 ≤ i → i < (lfb.height * lfb.ppsl : Nat) →
      pixelsOf base s.mem i = pixelsOf base s'.mem i) :
    ∀ i : Int, 0 ≤ i → i < (lfb.height * lfb.ppsl : Nat) →
      pixelsOf base (run lfb font base s calls).mem i =
        pixelsOf base (run lfb font base s' calls).mem i := by
  induction calls generalizing s s' with
  | nil => exact agree
  | cons call calls ih =>
    obtain ⟨here, later⟩ := inside
    apply ih
    · show (drawn lfb font s.cursor call).cursor = (drawn lfb font s'.cursor call).cursor
      rw [same]
    · exact later
    · intro i lo hi
      have range : ∀ w ∈ pixelWrites lfb (drawn lfb font s.cursor call).accesses,
          0 ≤ w.1 ∧ w.1 < (lfb.height * lfb.ppsl : Nat) := by
        intro w listed
        obtain ⟨px, py, written, index⟩ := mem_pixelWrites.mp listed
        obtain ⟨hx, hy⟩ := here px py w.2 written
        have := pixelAt_inside hx hy
        rw [← index]
        unfold pixelAt
        omega
      show pixelsOf base (storePixels base s.mem _) i = pixelsOf base (storePixels base s'.mem _) i
      rw [← same, storePixels_pixels fits _ range lo hi, storePixels_pixels fits _ range lo hi]
      exact writeAll_congr _ (agree i lo hi)

/-- **Clearing erases the screen and forgets what was there.** -/
theorem clearScreen_forgets (narrow : lfb.ppsl < 1073741824) (short : lfb.height < 2147483648)
    (fits : base + 4 * (lfb.height * lfb.ppsl) < 18446744073709551616) {color : Nat}
    (word : color < 4294967296) :
    (∀ s : Screen,
      (∀ px py, px < lfb.ppsl → py < lfb.height →
        pixelsOf base (s.clearScreen lfb base color).mem (pixelAt lfb px py) = color) ∧
      ∀ a, a < base ∨ base + 4 * (lfb.height * lfb.ppsl) ≤ a →
        (s.clearScreen lfb base color).mem a = s.mem a) ∧
    ∀ (s s' : Screen) (calls : List (CString × Nat)),
      (run lfb font base (s.clearScreen lfb base color) calls).cursor =
        (run lfb font base (s'.clearScreen lfb base color) calls).cursor ∧
      (StaysInside lfb font (s.clearScreen lfb base color).cursor calls →
        ∀ px py, px < lfb.ppsl → py < lfb.height →
          pixelsOf base (run lfb font base (s.clearScreen lfb base color) calls).mem
              (pixelAt lfb px py) =
            pixelsOf base (run lfb font base (s'.clearScreen lfb base color) calls).mem
              (pixelAt lfb px py)) := by
  have index {px py : Nat} (hx : px < lfb.ppsl) (hy : py < lfb.height) :
      0 ≤ pixelAt lfb px py ∧ pixelAt lfb px py < (lfb.height * lfb.ppsl : Nat) := by
    have := pixelAt_inside hx hy
    unfold pixelAt
    omega
  constructor
  · intro s
    constructor
    · intro px py hx hy
      obtain ⟨lo, hi⟩ := index hx hy
      exact clearScreen_pixel narrow short fits word s.mem lo hi
    · intro a out
      show KessOS.clearScreen lfb base color s.mem a = s.mem a
      rw [clearScreen_eq narrow short fits, Mem.blit_outside _ _ out]
  · intro s s' calls
    have cursors : (s.clearScreen lfb base color).cursor =
        (s'.clearScreen lfb base color).cursor := rfl
    have agree (i : Int) (lo : 0 ≤ i) (hi : i < (lfb.height * lfb.ppsl : Nat)) :
        pixelsOf base (s.clearScreen lfb base color).mem i =
          pixelsOf base (s'.clearScreen lfb base color).mem i :=
      (clearScreen_pixel narrow short fits word s.mem lo hi).trans
        (clearScreen_pixel narrow short fits word s'.mem lo hi).symm
    constructor
    · exact run_cursor lfb font base calls cursors
    · intro inside px py hx hy
      obtain ⟨lo, hi⟩ := index hx hy
      exact run_pixels lfb font base (Nat.le_of_lt fits) calls cursors inside agree _ lo hi

theorem clearScreen_forgets_vga :
    (∀ s : Screen,
      (∀ px py, px < vga.ppsl → py < vga.height →
        pixelsOf 0xC0000000 (s.clearScreen vga 0xC0000000 0x808080).mem (pixelAt vga px py) =
          0x808080) ∧
      ∀ a, a < 0xC0000000 ∨ 0xC0000000 + 4 * (vga.height * vga.ppsl) ≤ a →
        (s.clearScreen vga 0xC0000000 0x808080).mem a = s.mem a) ∧
    ∀ (s s' : Screen) (calls : List (CString × Nat)),
      (run vga Canvas.blankFont 0xC0000000 (s.clearScreen vga 0xC0000000 0x808080) calls).cursor =
        (run vga Canvas.blankFont 0xC0000000 (s'.clearScreen vga 0xC0000000 0x808080)
          calls).cursor ∧
      (StaysInside vga Canvas.blankFont (s.clearScreen vga 0xC0000000 0x808080).cursor calls →
        ∀ px py, px < vga.ppsl → py < vga.height →
          pixelsOf 0xC0000000 (run vga Canvas.blankFont 0xC0000000
              (s.clearScreen vga 0xC0000000 0x808080) calls).mem (pixelAt vga px py) =
            pixelsOf 0xC0000000 (run vga Canvas.blankFont 0xC0000000
              (s'.clearScreen vga 0xC0000000 0x808080) calls).mem (pixelAt vga px py)) :=
  clearScreen_forgets vga Canvas.blankFont 0xC0000000 (by decide) (by decide) (by decide)
    (by decide)

/-- A VGA screen that ends where memory does. -/
def topBase : Nat := 18446744073708322816

/-- Its last line is not cleared. -/
theorem clearScreen_lastLine :
    topBase + 4 * (vga.height * vga.ppsl) = 18446744073709551616 ∧
      ¬ ∀ s : Screen, ∀ px py, px < vga.ppsl → py < vga.height →
        pixelsOf topBase (s.clearScreen vga topBase 0x808080).mem (pixelAt vga px py) =
          0x808080 := by
  refine ⟨by decide, fun all => ?_⟩
  have last := all ⟨⟨0, 55, 0⟩, fun _ => 0⟩ 0 479 (by decide) (by decide)
  have kept : (KessOS.clearScreen vga topBase 0x808080 fun _ => 0) =
      Mem.blit (fun _ => 0) topBase (4 * (479 * vga.ppsl)) (colorBytes 0x808080) :=
    clearScreen_top (by decide) (by decide) rfl (by decide) (by decide) _ _
  rw [Screen.clearScreen, kept] at last
  revert last
  decide +kernel

end Screen

end KessOS
