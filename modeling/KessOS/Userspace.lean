import KessOS.Ring3

/-!
# The program in ring 3

What system calls leave on the screen, and `ui_start`, the program that the kernel
is built with.

* `ring3_paints`: the screen is what a program's system calls drew;
* `ui_shows`: what `ui_start` leaves on the screen.
-/

namespace KessOS.Userspace

open Transition
open Screen (Drawing shapes framebuffer)

/-! ## What system calls draw -/

section
variable {lfb : Framebuffer} {font : Psf1Font} {base tssp : Nat} {gdt : List Nat}
  {rsp0 gate : UInt64} {own : Set Nat}

/-- **The screen shows what the system calls drew**, each over what was there, as
long as nothing was drawn outside of it and no exception came. -/
theorem ring3_paints (fits : base + 4 * (lfb.height * lfb.ppsl) ≤ 18446744073709551616)
    (counted : lfb.height * lfb.ppsl ≤ 2147483648) {w w' : World} (fresh : w.history = [])
    (words : (Screen.start w.screen.cursor).Words) (running : w.stopped = none)
    (run : Leads (Step lfb font base gdt tssp rsp0 gate own) w w') (still : w'.stopped = none)
    (inside : ∀ shape ∈ shapes lfb font w.screen.cursor (w'.calls.flatMap Call.drawing),
      shape.Inside lfb)
    {px py : Nat} (hx : px < lfb.ppsl) (hy : py < lfb.height) :
    pixelsOf base w'.screen.mem (pixelAt lfb px py) =
      top font px py (pixelsOf base w.screen.mem (pixelAt lfb px py))
        (shapes lfb font w.screen.cursor (w'.calls.flatMap Call.drawing)) := by
  have place := pixelAt_inside hx hy
  have address : u64 (base + 4 * pixelAt lfb px py) = base + 4 * (px + py * lfb.ppsl) := by
    unfold u64 pixelAt
    omega
  have apart : Mem.Avoids (Mem.span (base + 4 * (px + py * lfb.ppsl)) 4)
      (own ∪ framebuffer lfb base)ᶜ := by
    rintro a ⟨lo, hi⟩ out
    exact out (Or.inr ⟨by omega, by omega⟩)
  have same := (leads_drawn fresh running run still).readLE apart
  have painted := Screen.drawings_top font fits counted (w'.calls.flatMap Call.drawing)
    (s := w.screen) words inside hx hy
  rw [← painted, pixelsOf, pixelsOf, address]
  exact same.symm

end

/-! ## The program -/

inductive UserInstr where
  | mov (dst : Gpr) (v : UInt64)
  | int80

/-- The two `asm` statements. -/
def uiStart : List UserInstr :=
  [.mov .rax 0x1, .int80,
    .mov .rax 0x2, .mov .r14 0, .mov .r13 0, .mov .r12 500, .mov .r11 30, .mov .r10 0xFFFFFF,
    .int80]

section
variable (lfb : Framebuffer) (font : Psf1Font) (base : Nat) (rsp0 gate : UInt64)

/-- Wherever the instructions lie. -/
inductive UserInstr.Step : UserInstr → World → World → Prop where
  | mov {w : World} (dst : Gpr) (v rip : UInt64) :
      Step (.mov dst v) w { w with cpu := { w.cpu.set dst v with rip := rip } }
  | int80 {w : World} (rip : UInt64) {cpu : Cpu} {sys : SyscallState} {screen : Screen}
      (returns : SystemCall lfb rsp0 gate { w.cpu with rip := rip } w.sys cpu sys)
      (draws : (Call.of w.cpu).Draws lfb font base w.screen screen) :
      Step .int80 w (w.called cpu sys screen)

def Exec : List UserInstr → World → World → Prop
  | [], w, w' => w' = w
  | i :: rest, w, w' => ∃ v, i.Step lfb font base rsp0 gate w v ∧ Exec rest v w'

variable {lfb font base rsp0 gate}

/-- The screen after some instructions is what their system calls drew. -/
theorem exec_drawn {is : List UserInstr} {w w' : World}
    (exec : Exec lfb font base rsp0 gate is w w') :
    ∃ calls, w'.calls = w.calls ++ calls ∧
      w'.screen = w.screen.draw lfb font base (calls.flatMap Call.drawing) := by
  induction is generalizing w with
  | nil =>
    cases exec
    exact ⟨[], (List.append_nil _).symm, rfl⟩
  | cons i rest ih =>
    obtain ⟨v, step, later⟩ := exec
    obtain ⟨calls, made, drawn⟩ := ih later
    cases step with
    | mov dst v rip => exact ⟨calls, made, drawn⟩
    | @int80 _ rip cpu sys screen returns draws =>
      refine ⟨.of w.cpu :: calls, ?_, ?_⟩
      · rw [made, World.called_calls, List.append_assoc]
        rfl
      · rw [drawn, World.called_screen, Call.draws_eq draws, List.flatMap_cons, Screen.draw,
          Screen.draw, Screen.draw, List.foldl_append]

theorem exec_runs (is : List UserInstr) (w : World) :
    ∃ w', Exec lfb font base rsp0 gate is w w' := by
  induction is generalizing w with
  | nil => exact ⟨w, rfl⟩
  | cons i rest ih =>
    cases i with
    | mov dst v =>
      obtain ⟨w', later⟩ := ih { w with cpu := { w.cpu.set dst v with rip := w.cpu.rip } }
      exact ⟨w', _, .mov dst v w.cpu.rip, later⟩
    | int80 =>
      obtain ⟨cpu, sys, screen, returns, draws⟩ :=
        call_returns lfb font base rsp0 gate w.cpu.rip w
      obtain ⟨w', later⟩ := ih (w.called cpu sys screen)
      exact ⟨w', _, .int80 w.cpu.rip returns draws, later⟩

theorem mov_step {dst : Gpr} {v : UInt64} {w w' : World}
    (step : UserInstr.Step lfb font base rsp0 gate (.mov dst v) w w') :
    w'.cpu.regs = (w.cpu.set dst v).regs ∧ w'.calls = w.calls := by
  cases step with
  | mov _ _ rip => exact ⟨rfl, rfl⟩

theorem int80_step {w w' : World} (step : UserInstr.Step lfb font base rsp0 gate .int80 w w') :
    w'.calls = w.calls ++ [.of w.cpu] := by
  cases step with
  | int80 rip returns draws => exact World.called_calls _ _ _ w

/-- The system calls `ui_start` makes, whatever the gate does to registers. -/
theorem uiStart_calls {w w' : World} (exec : Exec lfb font base rsp0 gate uiStart w w') :
    ∃ k : Call, k.rax = 1 ∧ w'.calls = w.calls ++ [k, ⟨2, 0, 0, 500, 30, 0xFFFFFF⟩] := by
  obtain ⟨w₁, rax, _, first, _, rax', _, r14, _, r13, _, r12, _, r11, w₂, r10, _, second, rfl⟩ :=
    exec
  obtain ⟨regs₁, calls₁⟩ := mov_step rax
  obtain ⟨regs₂, calls₂⟩ := mov_step rax'
  obtain ⟨regs₃, calls₃⟩ := mov_step r14
  obtain ⟨regs₄, calls₄⟩ := mov_step r13
  obtain ⟨regs₅, calls₅⟩ := mov_step r12
  obtain ⟨regs₆, calls₆⟩ := mov_step r11
  obtain ⟨regs₇, calls₇⟩ := mov_step r10
  have args : Call.of w₂.cpu = ⟨2, 0, 0, 500, 30, 0xFFFFFF⟩ := by
    simp [Call.of, Cpu.set, regs₇, regs₆, regs₅, regs₄, regs₃, regs₂]
  refine ⟨.of w₁.cpu, ?_, ?_⟩
  · rw [Call.of, regs₁]
    rfl
  · rw [int80_step second, args, calls₇, calls₆, calls₅, calls₄, calls₃, calls₂, int80_step first,
      calls₁, List.append_assoc]
    rfl

/-- What `ps2_keyboard_init` logs, once `_start` has cleared the screen. -/
def keyboardText : CString := .literal "Initalizing ps/2 keyboard..\n"

/-- The screen as ring 3 finds it. -/
def Finds (lfb : Framebuffer) (font : Psf1Font) (base : Nat) (s s' : Screen) : Prop :=
  ∃ decString hexString, (s.clearScreen lfb base 0).log lfb font base keyboardText (some .info) []
    decString hexString = some s'

/-- The two lines on the screen, without their ends. -/
def firstLine : List UInt8 := ((statusPrefix .info).bytes ++ keyboardText.bytes).dropLast

def secondLine : List UInt8 := greeting.dropLast

def page : List UInt8 := firstLine ++ Canvas.newlineChar :: (secondLine ++ [Canvas.newlineChar])

/-- A line in green at the left edge, on black. -/
def ShowsLine (lfb : Framebuffer) (font : Psf1Font) (p : Pixels) (chars : List UInt8) (y : Nat) :
    Prop :=
  ∀ k (h : k < chars.length) i j, i < 16 → j < 8 →
    p (pixelAt lfb (8 * k + j) (y + i)) = if Pixels.glyphBit font chars[k] i j then 0x00FF00 else 0

/-- A white bar at the top, and two lines where text begins. -/
structure Greets (lfb : Framebuffer) (font : Psf1Font) (p : Pixels) : Prop where
  bar : ∀ px py, px < 500 → py < 30 → p (pixelAt lfb px py) = 0xFFFFFF
  keyboard : ShowsLine lfb font p firstLine 55
  greeting : ShowsLine lfb font p secondLine 75
  rest : ∀ px py, px < lfb.ppsl → py < lfb.height → ¬ (px < 500 ∧ py < 30) →
    ¬ (px < 8 * firstLine.length ∧ 55 ≤ py ∧ py < 71) →
    ¬ (px < 8 * secondLine.length ∧ 75 ≤ py ∧ py < 91) → p (pixelAt lfb px py) = 0

theorem finds_typed {s s' : Screen} (finds : Finds lfb font base s s') :
    s' = (s.clearScreen lfb base 0).typed lfb font base
      (colored 0x00FF00 (firstLine ++ [Canvas.newlineChar])) := by
  obtain ⟨decString, hexString, logged⟩ := finds
  have text : prefixText (some .info) ++ expand keyboardText.bytes [] =
      firstLine ++ [Canvas.newlineChar] := by decide
  rw [Screen.log_plain font (some .info) (by decide) (by decide), text] at logged
  exact (Option.some.inj logged).symm

theorem page_letters (above : 75 < lfb.height) :
    Canvas.typedLetters lfb font Screen.home (colored 0x00FF00 page) =
      (firstLine.mapIdx fun k chr => ⟨⟨chr, 0 + 8 * k, 55⟩, 0x00FF00⟩) ++
        secondLine.mapIdx fun k chr => ⟨⟨chr, 0 + 8 * k, 75⟩, 0x00FF00⟩ := by
  have first : Canvas.newlineChar ∉ firstLine := by decide
  have second : Canvas.newlineChar ∉ secondLine := by decide
  have begun : Screen.home.y < lfb.height := Nat.lt_trans (show 55 < 75 by omega) above
  have line := Canvas.typedLetters_line lfb font 0x00FF00 first begun (by decide)
  obtain ⟨y, prevX⟩ := Canvas.typed_line lfb font 0x00FF00 first begun
  rw [page, colored_append, Canvas.typedLetters_append, line, Canvas.typedLetters_newline]
  generalize Screen.home.typed lfb font (colored 0x00FF00 firstLine) = c at y prevX ⊢
  have down : c.newline.y = 75 := by rw [Canvas.newline, y]; rfl
  have left : c.newline.x = 0 := prevX
  have next := Canvas.typedLetters_line lfb font 0x00FF00 second (c := c.newline)
    (by rw [down]; exact above) (by rw [left]; decide)
  rw [down, left] at next
  rw [colored_append, Canvas.typedLetters_append, next, Canvas.typedLetters_newline]
  exact congrArg _ (List.append_nil _)

/-- What is left on the screen, whatever the gate does to registers. -/
theorem exec_greets (wide : 500 ≤ lfb.width) (tall : 111 ≤ lfb.height)
    (counted : lfb.height * lfb.ppsl ≤ 2147483648)
    (fits : base + 4 * (lfb.height * lfb.ppsl) < 18446744073709551616) {s : Screen} {w w' : World}
    (finds : Finds lfb font base s w.screen)
    (exec : Exec lfb font base rsp0 gate uiStart w w') :
    Greets lfb font (pixelsOf base w'.screen.mem) := by
  have edges := lfb.fits
  have slim : lfb.ppsl < 1073741824 := by
    have rows : 111 * lfb.ppsl ≤ lfb.height * lfb.ppsl := Nat.mul_le_mul_right _ tall
    omega
  have short : lfb.height < 2147483648 := by
    have columns : lfb.height * 500 ≤ lfb.height * lfb.ppsl := Nat.mul_le_mul_left _ (by omega)
    omega
  obtain ⟨k, hi, made⟩ := uiStart_calls exec
  obtain ⟨calls, same, drawn⟩ := exec_drawn exec
  rw [← List.append_cancel_left (made.symm.trans same), finds_typed finds] at drawn
  have shown : w'.screen = ((s.clearScreen lfb base 0).typed lfb font base
      (colored 0x00FF00 page)).drawSquare lfb base 0 0 500 30 0xFFFFFF := by
    have lines : page = (firstLine ++ [Canvas.newlineChar]) ++ greeting := by decide
    rw [drawn, lines, colored_append _ (firstLine ++ _), Screen.typed_append lfb font]
    simp [Call.drawing, hi, Screen.draw, Drawing.run, uint]
  have plain : ∀ k ∈ colored 0x00FF00 page, k.1.toNat < 128 ∧ k.2 < 4294967296 := by
    intro k listed
    obtain ⟨char, color⟩ := mem_colored.mp listed
    have ascii : ∀ c ∈ page, c.toNat < 128 := Screen.ascii_of_all (by decide)
    exact ⟨ascii k.1 char, by omega⟩
  have narrow : Screen.Narrow 500 0 page := by decide
  have count : Screen.newlines page = 2 := by decide
  have text := Screen.column_shows font base (by omega) slim short fits s
    (show 0 < 4294967296 by omega) plain (by rw [fst_colored]; exact narrow.mono wide)
    (by rw [fst_colored, count]; omega)
  rw [page_letters (by omega)] at text
  have pixel {px py : Nat} (hx : px < lfb.ppsl) (hy : py < lfb.height) :=
    Screen.drawSquare_pixels font (Nat.le_of_lt fits) counted
      (show (Shape.square 0 0 500 30 0xFFFFFF).Inside lfb from ⟨by omega, by omega, by omega⟩)
      ((s.clearScreen lfb base 0).typed lfb font base (colored 0x00FF00 page)) hx hy
  simp only [top, List.foldl_cons, List.foldl_nil, Shape.inks, Shape.color, decide_eq_true_eq,
    Nat.zero_le, true_and, Nat.zero_add, ← shown] at pixel
  have first : firstLine.length = 34 := by decide
  have second : secondLine.length = 21 := by decide
  constructor
  · intro px py hx hy
    rw [pixel (by omega) (by omega), if_pos ⟨hx, hy⟩]
  · intro k hk i j hi hj
    have glyph := text.glyph ⟨⟨firstLine[k], 0 + 8 * k, 55⟩, 0x00FF00⟩
      (List.mem_append_left _ (List.mem_mapIdx.mpr ⟨k, hk, rfl⟩)) i j hi hj
    dsimp only at glyph
    rw [Nat.zero_add] at glyph
    rw [pixel (by omega) (by omega), if_neg (by omega), glyph]
  · intro k hk i j hi hj
    have glyph := text.glyph ⟨⟨secondLine[k], 0 + 8 * k, 75⟩, 0x00FF00⟩
      (List.mem_append_right _ (List.mem_mapIdx.mpr ⟨k, hk, rfl⟩)) i j hi hj
    dsimp only at glyph
    rw [Nat.zero_add] at glyph
    rw [pixel (by omega) (by omega), if_neg (by omega), glyph]
  · intro px py hx hy below aside beside
    rw [pixel hx hy, if_neg below]
    apply text.rest px py hx hy
    intro l listed covers
    rcases List.mem_append.mp listed with listed | listed
    · obtain ⟨k, hk, rfl⟩ := List.mem_mapIdx.mp listed
      obtain ⟨⟨_, right⟩, above, bottom⟩ := covers
      dsimp only at right above bottom
      omega
    · obtain ⟨k, hk, rfl⟩ := List.mem_mapIdx.mp listed
      obtain ⟨⟨_, right⟩, above, bottom⟩ := covers
      dsimp only at right above bottom
      omega

/-- **`ui_start` gets through its system calls**, and whatever the gate does to
its registers and whatever was on the screen before `_start` cleared it, the
screen shows the bar, the line about the keyboard and the greeting. -/
theorem ui_shows (wide : 500 ≤ lfb.width) (tall : 111 ≤ lfb.height)
    (counted : lfb.height * lfb.ppsl ≤ 2147483648)
    (fits : base + 4 * (lfb.height * lfb.ppsl) < 18446744073709551616) {s : Screen} {w : World}
    (finds : Finds lfb font base s w.screen) :
    (∃ w', Exec lfb font base rsp0 gate uiStart w w') ∧
      ∀ w', Exec lfb font base rsp0 gate uiStart w w' →
        Greets lfb font (pixelsOf base w'.screen.mem) :=
  ⟨exec_runs uiStart w, fun _ exec => exec_greets wide tall counted fits finds exec⟩

end

/-! ## On a VGA screen -/

theorem ring3_paints_square : ∃ w' : World, w'.calls = [⟨2, 10, 10, 20, 20, 0xFF0000⟩] ∧
    pixelsOf 0xC0000000 w'.screen.mem (pixelAt vga 15 15) =
      top Canvas.blankFont 15 15 (pixelsOf 0xC0000000 entered.screen.mem (pixelAt vga 15 15))
        [.square 10 10 20 20 0xFF0000] := by
  obtain ⟨w, run, running, _, history⟩ := square_runs
  have calls : w.calls = [⟨2, 10, 10, 20, 20, 0xFF0000⟩] := by
    rw [World.calls, history]
    rfl
  have inside : ∀ shape ∈ shapes vga Canvas.blankFont entered.screen.cursor
      (w.calls.flatMap Call.drawing), shape.Inside vga := by
    rw [calls]
    simp [Call.drawing, shapes, uint, Shape.Inside, vga]
  have painted := ring3_paints (w := entered) (by decide) (by decide) rfl Screen.home_words rfl run
    running inside (show 15 < vga.ppsl by decide) (show 15 < vga.height by decide)
  rw [calls] at painted
  exact ⟨w, calls, painted⟩

/-- Behind the line about the keyboard. -/
def booted : World := { entered with
  toRing0 := entered.setScreen (entered.screen.typed vga Canvas.blankFont 0xC0000000
    (colored 0x00FF00 (firstLine ++ [Canvas.newlineChar]))) }

theorem booted_finds :
    Finds vga Canvas.blankFont 0xC0000000 ⟨⟨0, 55, 0⟩, fun _ => 0⟩ booted.screen := by
  have text : prefixText (some .info) ++ expand keyboardText.bytes [] =
      firstLine ++ [Canvas.newlineChar] := by decide
  refine ⟨fun _ => 0, fun _ => 0, ?_⟩
  have black := entered_screen
  have green : statusColor (some .info) = 0x00FF00 := rfl
  rw [blackened] at black
  rw [Screen.log_plain Canvas.blankFont (some .info) (by decide) (by decide), text, green,
    ← black, booted, Ring0.setScreen_screen]

theorem ui_shows_vga :
    (∃ w', Exec vga Canvas.blankFont 0xC0000000 0x200000 0x100000 uiStart booted w') ∧
      ∀ w', Exec vga Canvas.blankFont 0xC0000000 0x200000 0x100000 uiStart booted w' →
        Greets vga Canvas.blankFont (pixelsOf 0xC0000000 w'.screen.mem) :=
  ui_shows (by decide) (by decide) (by decide) (by decide) booted_finds

end KessOS.Userspace
