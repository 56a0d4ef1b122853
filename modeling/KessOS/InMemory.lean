import KessOS.Footprint
import KessOS.Legible
import KessOS.Util

/-!
# The console over memory

The console reads strings, glyphs, the canvas and the framebuffer's description
from the memory it draws into, and its loops ask for the length of a string
again in every round. Here nothing is a value that memory could hold.

* `Objects`: where things are, and what of that is written;
* `StringAt.agree`, `Objects.Placed.agree`: what lies outside of it stays;
* `strlen_eq`, `putChar_stores`: strings and characters are those of the models
  that take them as values.
-/

namespace KessOS.InMemory

open Mem (span AgreeOff Avoids)

/-! ## The functions -/

/-- `while (STR[size++]);`, from a size on. A string ends within the address space. -/
def strlenLoop (m : Mem) (str : Nat) : Nat → Nat → Nat
  | 0, size => size
  | fuel + 1, size =>
    if m (byteAt str size) ≠ 0 then strlenLoop m str fuel (size + 1) else size + 1

def strlen (m : Mem) (str : Nat) : Nat := strlenLoop m str 18446744073709551616 0 - 1

/-- `for (int i = 0; i < strlen(str); ++i)`. -/
def forStr (str : Nat) (body : Int → Mem → Mem) (m : Mem) : Mem :=
  forBound u64 (fun m => strlen m str) body intFuel 0 m

/-- `ppsl` is at offset 24 of a `framebuffer_t`. -/
def glyphPixel (framebuffer pixPtr color xOff fontPtr y x : Nat) (m : Mem) : Mem :=
  if (m fontPtr).toNat &&& (0b10000000 >>> (x - xOff)) > 0 then
    m.writeLE (byteAt pixPtr (4 * (x + y * m.read32 (framebuffer + 24) : Nat))) 4 color
  else m

def glyphRow (framebuffer pixPtr color xOff fontPtr y : Nat) (m : Mem) : Mem :=
  (List.range ((xOff + 8) % 4294967296 - xOff)).foldl
    (fun m k => glyphPixel framebuffer pixPtr color xOff fontPtr y (xOff + k) m) m

/-- A `psf1_font_t` is the pointer to the header, whose last byte is `chsize`,
and the pointer to the glyphs. -/
def putChar (framebuffer psf1Font color : Nat) (chr : UInt8) (xOff yOff : Nat) (m : Mem) : Mem :=
  let pixPtr := m.read64 framebuffer
  let chsize := (m (m.read64 psf1Font + 3)).toNat
  let fontPtr := byteAt (m.read64 (psf1Font + 8)) (charValue chr * chsize)
  (List.range ((yOff + 16) % 4294967296 - yOff)).foldl
    (fun m (r : Nat) => glyphRow framebuffer pixPtr color xOff (byteAt fontPtr r) (yOff + r) m) m

/-- The members of a `canvas_t`: `x`, `y` and `prevX` at 0, 4 and 8, the pointers
`lfb` and `font` at 16 and 24. The `height` of a `framebuffer_t` is at 20. -/
def write (canvas str color : Nat) (i : Int) (m : Mem) : Mem :=
  if m (byteAt str i) = Canvas.newlineChar then
    let m := m.writeLE canvas 4 (m.read32 (canvas + 8))
    m.writeLE (canvas + 4) 4 (m.read32 (canvas + 4) + 20)
  else
    let m :=
      if m.read32 (canvas + 4) ≥ m.read32 (m.read64 (canvas + 16) + 20) then
        let m := m.writeLE (canvas + 8) 4 (m.read32 (canvas + 8) + 300)
        m.writeLE (canvas + 4) 4 10
      else m
    let m := putChar (m.read64 (canvas + 16)) (m.read64 (canvas + 24)) color (m (byteAt str i))
      (m.read32 canvas) (m.read32 (canvas + 4)) m
    m.writeLE canvas 4 (m.read32 canvas + 8)

def kwrite (canvas str color : Nat) (m : Mem) : Mem :=
  forStr str (write canvas str color) m

def clearScreen (canvas color : Nat) (m : Mem) : Mem :=
  let bytesPerScanline := m.read32 (m.read64 (canvas + 16) + 24) * 4 % 4294967296
  let m := forBound u32 (fun m => m.read32 (m.read64 (canvas + 16) + 20))
    (fun vsl m =>
      let pixPtrBase := (m.read64 (m.read64 (canvas + 16)) + bytesPerScanline * u64 vsl) %
        18446744073709551616
      clearLine color ((pixPtrBase + bytesPerScanline) % 18446744073709551616) pointerFuel
        pixPtrBase m)
    intFuel 0 m
  let m := m.writeLE (canvas + 8) 4 0
  let m := m.writeLE canvas 4 0
  m.writeLE (canvas + 4) 4 55

/-- The canvas is passed by value, with the pointer `lfb`. -/
def putPix (lfb x y color : Nat) (m : Mem) : Mem :=
  let idx := int32 (u32 (int32 x + int32 y * m.read32 (lfb + 24)))
  m.writeLE (byteAt (m.read64 lfb) (4 * idx)) 4 color

def drawSquare (lfb x y w h color : Nat) (m : Mem) : Mem :=
  forBound u32 (fun _ => (x + w) % 4294967296)
    (fun sx m =>
      forBound u32 (fun _ => (y + h) % 4294967296)
        (fun sy m => putPix lfb (u32 sx) (u32 sy) color m)
        intFuel (int32 y) m)
    intFuel (int32 x) m

/-- Where the linker and the bootloader put things: the canvas with what it
points to, the buffers of `dec2str` and `hex2str`, the literals of `log`, and
its two arrays `terminated` on the stack. -/
structure Objects where
  canvas : Nat
  lfb : Nat
  font : Nat
  header : Nat
  glyphBuffer : Nat
  base : Nat
  decString : Nat
  hexString : Nat
  terminated : Nat
  terminatedArg : Nat
  label : Status → Nat

namespace Objects

variable (o : Objects)

/-- `char terminated[2] = {c, 0x0}`. -/
def terminate (array : Nat) (c : UInt8) (m : Mem) : Mem :=
  (m.write8 array c).write8 (array + 1) 0

def dec2str (number : Int) (m : Mem) : Mem :=
  m.blit o.decString 80 (KessOS.dec2str (fun i => m (o.decString + i)) number)

def hex2str (hexNum : Nat) (m : Mem) : Mem :=
  m.blit o.hexString 80 (KessOS.hex2str (fun i => m (o.hexString + i)) hexNum)

/-- One iteration of `log` over its format. `args` are the slots of the
arguments not taken yet. -/
def step (format color : Nat) (i : Int) (args : List Nat) (m : Mem) :
    Option (Int × List Nat × Mem) :=
  match specifier (m (byteAt format i)) (m (byteAt format (incInt i))), args with
  | some .string, arg :: args =>
    some (incInt i, args, forStr arg (fun j m =>
      kwrite o.canvas o.terminatedArg color (terminate o.terminatedArg (m (byteAt arg j)) m)) m)
  | some .decimal, v :: args =>
    some (incInt i, args, kwrite o.canvas o.decString color (o.dec2str (int32 v) m))
  | some .hex, v :: args =>
    some (incInt i, args, kwrite o.canvas o.hexString color (o.hex2str (u32 (int32 v)) m))
  | some _, [] => none
  | none, args =>
    some (i, args,
      kwrite o.canvas o.terminated color (terminate o.terminated (m (byteAt format i)) m))

def scan (format color : Nat) : Nat → Int → List Nat → Mem → Option (List Nat × Mem)
  | 0, _, args, m => some (args, m)
  | fuel + 1, i, args, m =>
    if u64 i < strlen m format then
      (o.step format color i args m).bind fun (i, args, m) =>
        scan format color fuel (incInt i) args m
    else some (args, m)

def log (format : Nat) (status : Option Status) (args : List Nat) (m : Mem) :
    Option (List Nat × Mem) :=
  let m := match status with
    | none => m
    | some status => kwrite o.canvas (o.label status) (statusColor (some status)) m
  o.scan format (statusColor status) intFuel 0 args m

/-! ## What is where -/

/-- The cursor in the canvas. -/
def cursor (m : Mem) : Canvas.Cursor :=
  ⟨m.read32 o.canvas, m.read32 (o.canvas + 4), m.read32 (o.canvas + 8)⟩

def cursorBytes : Set Nat := span o.canvas 12

def buffers : Set Nat :=
  span o.decString 80 ∪ span o.hexString 80 ∪ (span o.terminated 2 ∪ span o.terminatedArg 2)

def screen (lfb : Framebuffer) : Set Nat := span o.base (4 * (lfb.height * lfb.ppsl))

/-- What `kwrite` writes. -/
def touched (lfb : Framebuffer) : Set Nat := o.cursorBytes ∪ o.screen lfb

/-- What `log` writes. -/
def written (lfb : Framebuffer) : Set Nat := o.touched lfb ∪ o.buffers

/-- What is written lies apart, and inside the address space. -/
structure Apart (lfb : Framebuffer) : Prop where
  cursor : Avoids o.cursorBytes (o.screen lfb)
  buffers : Avoids o.buffers (o.touched lfb)
  room : o.base + 4 * (lfb.height * lfb.ppsl) < 18446744073709551616
  decString : o.decString + 80 ≤ 18446744073709551616
  hexString : o.hexString + 80 ≤ 18446744073709551616
  terminated : o.terminated + 2 ≤ 18446744073709551616
  terminatedArg : o.terminatedArg + 2 ≤ 18446744073709551616

/-- The code finds its objects, outside of a footprint. -/
structure Placed (lfb : Framebuffer) (font : Psf1Font) (W : Set Nat) (m : Mem) : Prop where
  canvasLfb : m.read64 (o.canvas + 16) = o.lfb
  canvasFont : m.read64 (o.canvas + 24) = o.font
  base : m.read64 o.lfb = o.base
  height : m.read32 (o.lfb + 20) = lfb.height
  ppsl : m.read32 (o.lfb + 24) = lfb.ppsl
  header : m.read64 o.font = o.header
  glyphBuffer : m.read64 (o.font + 8) = o.glyphBuffer
  chsize : m (o.header + 3) = font.header.chsize
  pointers : Avoids (span (o.canvas + 16) 16) W
  description : Avoids (span o.lfb 28) W
  fontPointers : Avoids (span o.font 16) W
  headerByte : o.header + 3 ∉ W

end Objects

/-- A string in memory, outside of a footprint. -/
structure StringAt (W : Set Nat) (m : Mem) (ptr : Nat) (str : CString) : Prop where
  bytes : ∀ k, k ≤ str.bytes.length → m (ptr + k) = str.bytes.getD k 0
  inside : ptr + str.bytes.length < 18446744073709551616
  apart : Avoids (span ptr (str.bytes.length + 1)) W

/-- A byte of the font that is read where it lies, outside of a footprint, and a
pixel that is written on the screen. -/
def Fits (o : Objects) (lfb : Framebuffer) (font : Psf1Font) (W : Set Nat) (m : Mem) :
    Access → Prop
  | .read offset => byteAt o.glyphBuffer offset ∉ W ∧
      m (byteAt o.glyphBuffer offset) = font.glyph offset
  | .write x y _ => x < lfb.ppsl ∧ y < lfb.height

/-! ## What is not written stays -/

section
variable {o : Objects} {lfb : Framebuffer} {font : Psf1Font} {V W : Set Nat} {m m' : Mem}

theorem Objects.Placed.agree (h : o.Placed lfb font W m) (same : AgreeOff W m m') :
    o.Placed lfb font W m' := by
  have pointer {a b : Nat} (lo : o.canvas + 16 ≤ a) (hi : a + 8 ≤ o.canvas + 32)
      (there : m.read64 a = b) : m'.read64 a = b := by
    rw [← there]
    exact (same.readLE (h.pointers.mono_left (Set.Ico_subset_Ico lo hi))).symm
  have member {a n b : Nat} (lo : o.lfb ≤ a) (hi : a + n ≤ o.lfb + 28)
      (there : m.readLE a n = b) : m'.readLE a n = b := by
    rw [← there]
    exact (same.readLE (h.description.mono_left (Set.Ico_subset_Ico lo hi))).symm
  have fontMember {a b : Nat} (lo : o.font ≤ a) (hi : a + 8 ≤ o.font + 16)
      (there : m.read64 a = b) : m'.read64 a = b := by
    rw [← there]
    exact (same.readLE (h.fontPointers.mono_left (Set.Ico_subset_Ico lo hi))).symm
  constructor
  · exact pointer (by omega) (by omega) h.canvasLfb
  · exact pointer (by omega) (by omega) h.canvasFont
  · exact member (by omega) (by omega) h.base
  · exact member (by omega) (by omega) h.height
  · exact member (by omega) (by omega) h.ppsl
  · exact fontMember (by omega) (by omega) h.header
  · exact fontMember (by omega) (by omega) h.glyphBuffer
  · rw [← same h.headerByte, h.chsize]
  · exact h.pointers
  · exact h.description
  · exact h.fontPointers
  · exact h.headerByte

theorem Objects.Placed.mono (h : o.Placed lfb font W m) (sub : V ⊆ W) : o.Placed lfb font V m :=
  { h with
    pointers := h.pointers.mono_right sub
    description := h.description.mono_right sub
    fontPointers := h.fontPointers.mono_right sub
    headerByte := fun listed => h.headerByte (sub listed) }

theorem StringAt.agree {ptr : Nat} {str : CString} (h : StringAt W m ptr str)
    (same : AgreeOff W m m') : StringAt W m' ptr str := by
  refine ⟨fun k hk => ?_, h.inside, h.apart⟩
  rw [← h.bytes k hk]
  exact (same (h.apart (ptr + k) ⟨by omega, by omega⟩)).symm

theorem StringAt.mono {ptr : Nat} {str : CString} (h : StringAt W m ptr str) (sub : V ⊆ W) :
    StringAt V m ptr str :=
  ⟨h.bytes, h.inside, h.apart.mono_right sub⟩

theorem Fits.agree {a : Access} (h : Fits o lfb font W m a) (same : AgreeOff W m m') :
    Fits o lfb font W m' a := by
  cases a with
  | read offset => exact ⟨h.1, (same h.1).symm.trans h.2⟩
  | write x y color => exact h

theorem Fits.mono {a : Access} (h : Fits o lfb font W m a) (sub : V ⊆ W) :
    Fits o lfb font V m a := by
  cases a with
  | read offset => exact ⟨fun listed => h.1 (sub listed), h.2⟩
  | write x y color => exact h

end

/-! ## Strings -/

theorem strlenLoop_eq {m : Mem} {W : Set Nat} {ptr : Nat} {str : CString}
    (h : StringAt W m ptr str) {size fuel : Nat} (low : size ≤ str.bytes.length)
    (enough : str.bytes.length < size + fuel) :
    strlenLoop m ptr fuel size = str.bytes.length + 1 := by
  have inside := h.inside
  induction fuel generalizing size with
  | zero => omega
  | succ fuel ih =>
    rw [strlenLoop, byteAt_small (by omega), h.bytes size low]
    by_cases last : size = str.bytes.length
    · subst last
      have stop : str.bytes.getD str.bytes.length 0 = 0 := by simp
      rw [stop, if_neg (by simp)]
    · have before : size < str.bytes.length := by omega
      have char : str.bytes.getD size 0 ≠ 0 := by
        rw [List.getD_eq_getElem _ _ before]
        intro zero
        exact str.noNul (zero ▸ List.getElem_mem before)
      rw [if_pos char, ih (by omega) (by omega)]

/-- **The length of a string.** -/
theorem strlen_eq {m : Mem} {W : Set Nat} {ptr : Nat} {str : CString}
    (h : StringAt W m ptr str) : strlen m ptr = str.bytes.length := by
  have inside := h.inside
  rw [strlen, strlenLoop_eq h (Nat.zero_le _) (by omega), Nat.add_sub_cancel]

/-- The character that the counter of a loop is at. -/
theorem StringAt.char {m : Mem} {W : Set Nat} {ptr : Nat} {str : CString}
    (h : StringAt W m ptr str) {i : Int} (below : u64 i ≤ str.bytes.length) :
    m (byteAt ptr i) = str.bytes.getD (u64 i) 0 := by
  have inside := h.inside
  have address : byteAt ptr i = ptr + u64 i := by
    unfold byteAt u64 at *
    omega
  rw [address, h.bytes _ below]

/-! ## Pixels in memory -/

theorem storePixels_cons (base : Nat) (m : Mem) (w : Int × Nat) (writes : List (Int × Nat)) :
    storePixels base m (w :: writes) =
      (storePixels base m writes).writeLE (byteAt base (4 * w.1)) 4 w.2 := rfl

theorem storePixels_append (base : Nat) (m : Mem) (later earlier : List (Int × Nat)) :
    storePixels base m (later ++ earlier) = storePixels base (storePixels base m earlier) later :=
  List.foldr_append

theorem storePixels_congr {W : Set Nat} {m m' : Mem} (h : AgreeOff W m m') (base : Nat)
    (writes : List (Int × Nat)) :
    AgreeOff W (storePixels base m writes) (storePixels base m' writes) := by
  induction writes with
  | nil => exact h
  | cons w writes ih =>
    rw [storePixels_cons, storePixels_cons]
    exact ih.writeLE _ _ _

theorem storePixels_agree {base n : Nat} (room : base + 4 * n ≤ 18446744073709551616) (m : Mem)
    {writes : List (Int × Nat)} (inside : ∀ w ∈ writes, 0 ≤ w.1 ∧ w.1 < n) :
    AgreeOff (span base (4 * n)) m (storePixels base m writes) := by
  induction writes with
  | nil => exact .refl _ m
  | cons w writes ih =>
    obtain ⟨low, high⟩ := inside w List.mem_cons_self
    refine (ih fun w' listed => inside w' (List.mem_cons_of_mem _ listed)).trans ?_
    rw [storePixels_cons]
    apply Mem.writeLE_agree
    rw [byteAt, pixel_address room low high]
    exact Set.Ico_subset_Ico (by omega) (by omega)

/-! ## A character -/

theorem byteAt_byteAt (base : Nat) (i : Int) (r : Nat) :
    byteAt (byteAt base i) r = byteAt base (i + r) := by
  unfold byteAt u64
  omega

theorem Canvas.write_accesses_mono (lfb : Framebuffer) (font : Psf1Font) {c : Canvas} (color : Nat)
    (chr : UInt8) {a : Access} (listed : a ∈ c.accesses) :
    a ∈ (c.write lfb font color chr).accesses := by
  by_cases newline : chr = Canvas.newlineChar
  · rw [Canvas.write, if_pos newline]
    exact listed
  · rw [KessOS.Canvas.write_accesses lfb font color c newline, putChar_append]
    exact List.mem_append_right _ listed

theorem Canvas.typed_accesses_mono (lfb : Framebuffer) (font : Psf1Font) {c : Canvas}
    (text : Typed) {a : Access} (listed : a ∈ c.accesses) :
    a ∈ (c.typed lfb font text).accesses := by
  have same : c.cursor = (Screen.start c.cursor).cursor := rfl
  rw [Canvas.typed_accesses lfb font text same rfl]
  exact List.mem_append_right _ listed

theorem Canvas.kwrite_accesses_mono (lfb : Framebuffer) (font : Psf1Font) {c : Canvas}
    (str : CString) (color : Nat) {a : Access} (listed : a ∈ c.accesses) :
    a ∈ (c.kwrite lfb font str color).accesses := by
  rw [Canvas.kwrite_typed]
  exact Canvas.typed_accesses_mono lfb font _ listed

/-- Pixels that fit have an index in the framebuffer. -/
theorem fits_inside {o : Objects} {lfb : Framebuffer} {font : Psf1Font} {W : Set Nat} {m : Mem}
    {out : List Access} (fits : ∀ a ∈ out, Fits o lfb font W m a) {w : Int × Nat}
    (listed : w ∈ pixelWrites lfb out) : 0 ≤ w.1 ∧ w.1 < (lfb.height * lfb.ppsl : Nat) := by
  obtain ⟨x, y, written, index⟩ := mem_pixelWrites.mp listed
  obtain ⟨hx, hy⟩ := fits _ written
  have inside := pixelAt_inside hx hy
  rw [← index]
  unfold pixelAt
  omega

section
variable {o : Objects} {lfb : Framebuffer} {font : Psf1Font} {W : Set Nat} {m : Mem}

/-- Memory `m'` is memory `m` with the pixels that were drawn, if they fit. -/
def Drawn (o : Objects) (lfb : Framebuffer) (font : Psf1Font) (W : Set Nat) (m m' : Mem)
    (out : List Access) : Prop :=
  (∀ a ∈ out, Fits o lfb font W m a) → m' = storePixels o.base m (pixelWrites lfb out)

variable (room : o.base + 4 * (lfb.height * lfb.ppsl) < 18446744073709551616)
  (screen : o.screen lfb ⊆ W)
include room screen

theorem Drawn.agree {m' : Mem} {out : List Access} (h : Drawn o lfb font W m m' out)
    (fits : ∀ a ∈ out, Fits o lfb font W m a) : AgreeOff W m m' := by
  rw [h fits]
  exact (storePixels_agree (Nat.le_of_lt room) m fun w listed => fits_inside fits listed).mono
    screen

variable (placed : o.Placed lfb font W m)
include placed

theorem glyphPixel_drawn (color xOff : Nat) (fontPtr : Int) (y x : Nat) {m' : Mem}
    {out : List Access} (h : Drawn o lfb font W m m' out) :
    Drawn o lfb font W m
      (glyphPixel o.lfb o.base color xOff (byteAt o.glyphBuffer fontPtr) y x m')
      (KessOS.glyphPixel font color xOff fontPtr y x out) := by
  intro fits
  have read : Fits o lfb font W m (.read fontPtr) := by
    apply fits
    rw [mem_glyphPixel_read]
    exact Or.inr rfl
  have before : ∀ a ∈ out, Fits o lfb font W m a := by
    intro a listed
    apply fits
    unfold KessOS.glyphPixel
    dsimp only
    split <;> simp [listed]
  have same := h.agree room screen before
  have glyph : m' (byteAt o.glyphBuffer fontPtr) = font.glyph fontPtr := (read.agree same).2
  have ppsl := (placed.agree same).ppsl
  rw [glyphPixel, glyph, ppsl, KessOS.glyphPixel, h before]
  split
  · next set => rfl
  · next clear => rfl

theorem glyphRow_drawn (color xOff : Nat) (fontPtr : Int) (y : Nat) {m' : Mem}
    {out : List Access} (h : Drawn o lfb font W m m' out) :
    Drawn o lfb font W m
      (glyphRow o.lfb o.base color xOff (byteAt o.glyphBuffer fontPtr) y m')
      (KessOS.glyphRow font color xOff fontPtr y out) :=
  List.foldl_rel h fun k _ _ _ drawn =>
    glyphPixel_drawn room screen placed color xOff fontPtr y (xOff + k) drawn

/-- **A character is drawn in memory** as in the model of `Font`. -/
theorem putChar_stores (color : Nat) (chr : UInt8) (xOff yOff : Nat)
    (fits : ∀ a ∈ KessOS.putChar font color chr xOff yOff [], Fits o lfb font W m a) :
    putChar o.lfb o.font color chr xOff yOff m =
      storePixels o.base m (pixelWrites lfb (KessOS.putChar font color chr xOff yOff [])) := by
  have rows : Drawn o lfb font W m (putChar o.lfb o.font color chr xOff yOff m)
      (KessOS.putChar font color chr xOff yOff []) := by
    rw [putChar, KessOS.putChar, placed.base, placed.header, placed.chsize, placed.glyphBuffer]
    apply List.foldl_rel (r := Drawn o lfb font W m)
    · intro _
      rfl
    · intro r _ m' out drawn
      rw [byteAt_byteAt]
      exact glyphRow_drawn room screen placed color xOff (glyphOffset font chr r) (yOff + r) drawn
  exact rows fits

end

end KessOS.InMemory
