import KessOS.Font

/-!
# Drawing the boot menu

The menu's position is computed from the height of the screen and used both as
its row and as its distance from the left edge.

* `mem_menu_write`: a pixel of the menu belongs to a bar or to a text;
* `menu_on_screen_iff`: the screens that the menu fits on.
-/

namespace KessOS.Bootloader

/-- The characters of a literal. -/
def cText (s : String) : List UInt8 := s.toList.map fun c => c.toNat.toUInt8

def topText : List UInt8 :=
  cText ("KessBoot v1.4 -- use up/down arrows to move and right arrow to select." ++
    " Or left arrow for legacy support.")

variable (lfb : Framebuffer) (font : Psf1Font)

/-- The subtraction and the sum are of `unsigned int`s. -/
def menuStart : Nat := (lfb.height / 2 + 4294967051) % 4294967296

def menuLimit : Nat := (menuStart lfb + 15) % 4294967296

/-- A text, every character eight pixels after the one before. The offsets are
64-bit and are converted to `unsigned int` for each character. -/
def drawText (color : Nat) : List UInt8 → Nat → Nat → List Access → List Access
  | [], _, _, out => out
  | chr :: rest, x, y, out =>
    drawText color rest (x + 8) y
      (putChar font color chr (x % 4294967296) (y % 4294967296) out)

/-- A bar across the screen, in the rows from `top` to before `limit`. -/
def drawBar (color top limit : Nat) (out : List Access) : List Access :=
  (List.range lfb.width).foldl (fun out x =>
    (List.range (limit - top)).foldl (fun out r => .write x (top + r) color :: out) out) out

/-- The two menus differ in the colours of the bars and in the options' texts. -/
def drawMenu (bootColor rebootColor : Nat) (bootOption rebootOption : List UInt8)
    (out : List Access) : List Access :=
  let start := menuStart lfb
  let out := drawText font 0x000000 topText (start + 100) 50 out
  let out := drawBar lfb bootColor start (menuLimit lfb) out
  let out := drawText font 0x000000 bootOption (start + 350) start out
  let out := drawBar lfb rebootColor (start + 50) (start + 50 + 15) out
  drawText font 0x000000 rebootOption (start + 350) (start + 50) out

/-- What follows `clear_screen`, which fills whole scanlines. -/
def menuSelectBoot (out : List Access) : List Access :=
  drawMenu lfb font 0xFFFFFF 0x808080 (cText "BOOT [X]") (cText "REBOOT []") out

def menuSelectReboot (out : List Access) : List Access :=
  drawMenu lfb font 0x808080 0xFFFFFF (cText "BOOT []") (cText "REBOOT [X]") out

/-! ## The pixels of the menu -/

/-- Some character of the text sets the pixel. -/
def TextInks (text : List UInt8) (x y px py : Nat) : Prop :=
  ∃ i, ∃ h : i < text.length,
    Inks font (text.get ⟨i, h⟩) ((x + 8 * i) % 4294967296) (y % 4294967296) px py

theorem mem_drawText_write (color : Nat) (text : List UInt8) (x y px py c : Nat)
    (out : List Access) : .write px py c ∈ drawText font color text x y out ↔
      .write px py c ∈ out ∨ TextInks font text x y px py ∧ c = color := by
  induction text generalizing x out with
  | nil =>
    simp only [drawText, TextInks, List.length_nil]
    constructor
    · exact Or.inl
    · rintro (h | ⟨⟨i, h, _⟩, _⟩)
      · exact h
      · exact absurd h (Nat.not_lt_zero i)
  | cons chr rest ih =>
    rw [drawText, ih, mem_putChar_write font color chr (Nat.mod_lt _ (by omega))
      (Nat.mod_lt _ (by omega))]
    constructor
    · rintro ((h | ⟨ink, same⟩) | ⟨⟨i, hi, ink⟩, same⟩)
      · exact Or.inl h
      · exact Or.inr ⟨⟨0, Nat.succ_pos _, ink⟩, same⟩
      · refine Or.inr ⟨⟨i + 1, Nat.succ_lt_succ hi, ?_⟩, same⟩
        rwa [show x + 8 * (i + 1) = x + 8 + 8 * i by omega]
    · rintro (h | ⟨⟨i, hi, ink⟩, same⟩)
      · exact Or.inl (Or.inl h)
      · cases i with
        | zero => exact Or.inl (Or.inr ⟨ink, same⟩)
        | succ i =>
          refine Or.inr ⟨⟨i, Nat.lt_of_succ_lt_succ hi, ?_⟩, same⟩
          rwa [show x + 8 + 8 * i = x + 8 * (i + 1) by omega]

theorem mem_drawBar_write (color top limit px py c : Nat) (out : List Access) :
    .write px py c ∈ drawBar lfb color top limit out ↔
      .write px py c ∈ out ∨ px < lfb.width ∧ top ≤ py ∧ py < limit ∧ c = color := by
  have column (x : Nat) (out : List Access) :
      .write px py c ∈ (List.range (limit - top)).foldl
          (fun out r => .write x (top + r) color :: out) out ↔
        .write px py c ∈ out ∨ px = x ∧ top ≤ py ∧ py < limit ∧ c = color := by
    refine (mem_foldl_range (P := fun r => px = x ∧ py = top + r ∧ c = color)
      (fun r out => ?_) _ out).trans (or_congr_right ?_)
    · rw [List.mem_cons, Access.write.injEq, or_comm]
    · constructor
      · rintro ⟨r, hr, same, rfl, color⟩
        exact ⟨same, by omega, by omega, color⟩
      · rintro ⟨same, low, high, color⟩
        exact ⟨py - top, by omega, same, by omega, color⟩
  refine (mem_foldl_range (fun x out => column x out) _ out).trans (or_congr_right ?_)
  constructor
  · rintro ⟨x, hx, rfl, rest⟩
    exact ⟨hx, rest⟩
  · rintro ⟨hx, rest⟩
    exact ⟨px, hx, rfl, rest⟩

/-- **A pixel of the menu belongs to a bar or to a text.** -/
theorem mem_drawMenu_write (bootColor rebootColor : Nat) (bootOption rebootOption : List UInt8)
    (px py : Nat) :
    (∃ c, .write px py c ∈ drawMenu lfb font bootColor rebootColor bootOption rebootOption []) ↔
      TextInks font topText (menuStart lfb + 100) 50 px py ∨
      (px < lfb.width ∧ menuStart lfb ≤ py ∧ py < menuLimit lfb) ∨
      TextInks font bootOption (menuStart lfb + 350) (menuStart lfb) px py ∨
      (px < lfb.width ∧ menuStart lfb + 50 ≤ py ∧ py < menuStart lfb + 65) ∨
      TextInks font rebootOption (menuStart lfb + 350) (menuStart lfb + 50) px py := by
  simp only [drawMenu, mem_drawText_write, mem_drawBar_write, List.not_mem_nil, false_or]
  constructor
  · rintro ⟨c, (((⟨title, _⟩ | ⟨hx, top, limit, _⟩) | ⟨boot, _⟩) | ⟨hx, top, limit, _⟩) |
      ⟨reboot, _⟩⟩
    · exact Or.inl title
    · exact Or.inr (Or.inl ⟨hx, top, limit⟩)
    · exact Or.inr (Or.inr (Or.inl boot))
    · exact Or.inr (Or.inr (Or.inr (Or.inl ⟨hx, top, limit⟩)))
    · exact Or.inr (Or.inr (Or.inr (Or.inr reboot)))
  · rintro (title | ⟨hx, top, limit⟩ | boot | ⟨hx, top, limit⟩ | reboot)
    · exact ⟨0, Or.inl (Or.inl (Or.inl (Or.inl ⟨title, rfl⟩)))⟩
    · exact ⟨bootColor, Or.inl (Or.inl (Or.inl (Or.inr ⟨hx, top, limit, rfl⟩)))⟩
    · exact ⟨0, Or.inl (Or.inl (Or.inr ⟨boot, rfl⟩))⟩
    · exact ⟨rebootColor, Or.inl (Or.inr ⟨hx, top, limit, rfl⟩)⟩
    · exact ⟨0, Or.inr ⟨reboot, rfl⟩⟩

/-! ## On the screen -/

/-- Whatever the font, every pixel of both menus is on the screen. -/
def MenuOnScreen : Prop :=
  ∀ (font : Psf1Font) (px py c : Nat), .write px py c ∈ menuSelectBoot lfb font [] ∨
    .write px py c ∈ menuSelectReboot lfb font [] → px < lfb.width ∧ py < lfb.height

/-- The screen has 490 rows, and the title ends before its right edge. -/
def MenuFits : Prop :=
  490 ≤ lfb.height ∧ lfb.height / 2 - 245 + 100 + 8 * topText.length ≤ lfb.width

theorem topText_length : topText.length = 104 := by decide

/-- A text that ends on the screen is on the screen. -/
theorem text_on_screen {text : List UInt8} {x y px py : Nat}
    (right : x + 8 * text.length ≤ lfb.width) (bottom : y + 16 ≤ lfb.height)
    (ink : TextInks font text x y px py) : px < lfb.width ∧ py < lfb.height := by
  obtain ⟨i, hi, ink⟩ := ink
  have fits := lfb.fits
  have ppslWord := lfb.ppslWord
  have heightWord := lfb.heightWord
  have column := ink.column
  have row := ink.row
  rw [Nat.mod_eq_of_lt (by omega)] at column row
  omega

theorem menuStart_tall (tall : 490 ≤ lfb.height) : menuStart lfb = lfb.height / 2 - 245 := by
  have heightWord := lfb.heightWord
  unfold menuStart
  omega

theorem MenuFits.drawMenu {lfb : Framebuffer} (fits : MenuFits lfb)
    {bootColor rebootColor : Nat} {bootOption rebootOption : List UInt8}
    (short : bootOption.length ≤ 8 ∧ rebootOption.length ≤ 10) {px py c : Nat}
    (pixel : .write px py c ∈
      Bootloader.drawMenu lfb font bootColor rebootColor bootOption rebootOption []) :
    px < lfb.width ∧ py < lfb.height := by
  obtain ⟨tall, wide⟩ := fits
  have heightWord := lfb.heightWord
  have start := menuStart_tall lfb tall
  have limit : menuLimit lfb = menuStart lfb + 15 := by
    unfold menuLimit
    omega
  rw [topText_length] at wide
  rcases (mem_drawMenu_write lfb font _ _ _ _ px py).mp ⟨c, pixel⟩ with
    title | bar | boot | bar | reboot
  · refine text_on_screen lfb font ?_ (by omega) title
    rw [topText_length]
    omega
  · omega
  · exact text_on_screen lfb font (by omega) (by omega) boot
  · omega
  · exact text_on_screen lfb font (by omega) (by omega) reboot

/-- A font without a clear bit. -/
def solidFont : Psf1Font where
  header := ⟨0x36, 0x04, 0, 16⟩
  glyph := fun _ => 0xff

theorem solidFont_inks (chr : UInt8) {xOff yOff px py : Nat} (right : xOff + 8 < 4294967296)
    (bottom : yOff + 16 < 4294967296) (column : xOff ≤ px ∧ px < xOff + 8)
    (row : yOff ≤ py ∧ py < yOff + 16) : Inks solidFont chr xOff yOff px py := by
  refine ⟨right, bottom, column, row, ?_⟩
  have bits : ∀ k, k < 8 → (0xff : Nat) &&& (0b10000000 >>> k) > 0 := by decide
  exact bits (px - xOff) (by omega)

/-- The top left and the top right pixel of a character of the title. -/
theorem title_inks {i : Nat} (hi : i < 104)
    (right : (menuStart lfb + 100 + 8 * i) % 4294967296 + 8 < 4294967296) {k : Nat} (hk : k < 8) :
    TextInks solidFont topText (menuStart lfb + 100) 50
      ((menuStart lfb + 100 + 8 * i) % 4294967296 + k) 50 :=
  ⟨i, by rwa [topText_length], solidFont_inks _ right (by decide) (by omega) (by decide)⟩

theorem MenuOnScreen.pixel {lfb : Framebuffer} (h : MenuOnScreen lfb) {px py : Nat}
    (pixel : TextInks solidFont topText (menuStart lfb + 100) 50 px py ∨
      px < lfb.width ∧ menuStart lfb + 50 ≤ py ∧ py < menuStart lfb + 65) :
    px < lfb.width ∧ py < lfb.height := by
  have there : ∃ c, .write px py c ∈ menuSelectBoot lfb solidFont [] := by
    apply (mem_drawMenu_write lfb solidFont _ _ _ _ px py).mpr
    cases pixel with
    | inl title => exact Or.inl title
    | inr bar => exact Or.inr (Or.inr (Or.inr (Or.inl bar)))
  obtain ⟨c, there⟩ := there
  exact h solidFont px py c (Or.inl there)

/-- On a lower screen the start wraps, and the second bar lies far below. -/
theorem MenuOnScreen.tall {lfb : Framebuffer} (h : MenuOnScreen lfb) : 490 ≤ lfb.height := by
  by_contra low
  have start : menuStart lfb = lfb.height / 2 + 4294967051 := by
    unfold menuStart
    omega
  by_cases empty : lfb.width = 0
  · have first := h.pixel (Or.inl (title_inks lfb (i := 50) (k := 0) (by omega) (by omega)
      (by omega)))
    omega
  · have row : 0 < lfb.width ∧ menuStart lfb + 50 < lfb.height := h.pixel (Or.inr (by omega))
    omega

theorem MenuOnScreen.fits {lfb : Framebuffer} (h : MenuOnScreen lfb) : MenuFits lfb := by
  have tall := h.tall
  have heightWord := lfb.heightWord
  have start := menuStart_tall lfb tall
  refine ⟨tall, ?_⟩
  rw [topText_length]
  have last := h.pixel (Or.inl (title_inks lfb (i := 103) (k := 7) (by omega) (by omega)
    (by omega)))
  omega

/-- **The menu is on the screen exactly when the screen is that high and wide.** -/
theorem menu_on_screen_iff : MenuOnScreen lfb ↔ MenuFits lfb := by
  constructor
  · exact MenuOnScreen.fits
  · rintro fits font px py c (boot | reboot)
    · exact fits.drawMenu font (by decide) boot
    · exact fits.drawMenu font (by decide) reboot

/-- A screen of 1024 by 768. -/
def xga : Framebuffer where
  width := 1024
  height := 768
  ppsl := 1024
  fits := Nat.le_refl _
  heightWord := by decide
  ppslWord := by decide

/-- The title leaves it on the right. -/
theorem xga_off_screen : ¬ MenuOnScreen xga := by
  intro h
  have fits := h.fits.2
  rw [topText_length] at fits
  revert fits
  decide

end KessOS.Bootloader
