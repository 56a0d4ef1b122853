import KessOS.InMemory
import KessOS.Painter

/-!
# The console's calls over memory

* `Holds`: memory is what the screen should be, in the cursor and outside of the
  buffers;
* `kwrite_holds`, `clearScreen_holds`, `drawSquare_holds`: a call keeps that,
  where nothing it reads is written.
-/

namespace KessOS.InMemory

open Mem (span AgreeOff Avoids)

/-! ## The cursor and the screen -/

/-- From memory `m₀` on memory has come to `m`, which holds the screen: the cursor
in the canvas, and all but the buffers elsewhere. Only `V` was written. -/
structure Holds (o : Objects) (V : Set Nat) (m₀ m : Mem) (s : Screen) : Prop where
  cursor : o.cursor m = s.cursor
  mem : AgreeOff (o.cursorBytes ∪ o.buffers) m s.mem
  frame : AgreeOff V m₀ m

/-- The screen of a canvas, over some memory. -/
def shown (o : Objects) (lfb : Framebuffer) (mem : Mem) (c : Canvas) : Screen :=
  ⟨c.cursor, storePixels o.base mem (pixelWrites lfb c.accesses)⟩

namespace Holds

section
variable {o : Objects} {lfb : Framebuffer} {V W : Set Nat} {m₀ m m' : Mem} {s s' : Screen}

theorem mono (h : Holds o V m₀ m s) (sub : V ⊆ W) : Holds o W m₀ m s :=
  ⟨h.cursor, h.mem, h.frame.mono sub⟩

/-- One routine after another. -/
theorem trans (h : Holds o V m₀ m s) (h' : Holds o V m m' s') : Holds o V m₀ m' s' :=
  ⟨h'.cursor, h'.mem, h.frame.trans h'.frame⟩

variable (h : Holds o V m₀ m s)
include h

theorem restart (W : Set Nat) : Holds o W m m s := ⟨h.cursor, h.mem, .refl W m⟩

theorem x : m.read32 o.canvas = s.cursor.x := congrArg Canvas.Cursor.x h.cursor

theorem y : m.read32 (o.canvas + 4) = s.cursor.y := congrArg Canvas.Cursor.y h.cursor

theorem prevX : m.read32 (o.canvas + 8) = s.cursor.prevX := congrArg Canvas.Cursor.prevX h.cursor

/-- A store to a member of the cursor. -/
theorem member (sub : o.cursorBytes ⊆ V) {a : Nat} (lo : o.canvas ≤ a) (hi : a + 4 ≤ o.canvas + 12)
    (v : Nat) {c : Canvas.Cursor} (cursor : o.cursor (m.writeLE a 4 v) = c) :
    Holds o V m₀ (m.writeLE a 4 v) ⟨c, s.mem⟩ := by
  have inside : span a 4 ⊆ o.cursorBytes := Set.Ico_subset_Ico lo hi
  constructor
  · exact cursor
  · exact (Mem.writeLE_agree m (inside.trans Set.subset_union_left) v).symm.trans h.mem
  · exact h.frame.trans (Mem.writeLE_agree m (inside.trans sub) v)

theorem setX (sub : o.cursorBytes ⊆ V) (v : Nat) : Holds o V m₀ (m.writeLE o.canvas 4 v)
    ⟨⟨v % 4294967296, s.cursor.y, s.cursor.prevX⟩, s.mem⟩ := by
  apply h.member sub (by omega) (by omega)
  rw [Objects.cursor, Mem.read32_write32, Mem.read32_write32_ne _ _ (by omega),
    Mem.read32_write32_ne _ _ (by omega), h.y, h.prevX]

theorem setY (sub : o.cursorBytes ⊆ V) (v : Nat) : Holds o V m₀ (m.writeLE (o.canvas + 4) 4 v)
    ⟨⟨s.cursor.x, v % 4294967296, s.cursor.prevX⟩, s.mem⟩ := by
  apply h.member sub (by omega) (by omega)
  rw [Objects.cursor, Mem.read32_write32, Mem.read32_write32_ne _ _ (by omega),
    Mem.read32_write32_ne _ _ (by omega), h.x, h.prevX]

theorem setPrevX (sub : o.cursorBytes ⊆ V) (v : Nat) :
    Holds o V m₀ (m.writeLE (o.canvas + 8) 4 v)
      ⟨⟨s.cursor.x, s.cursor.y, v % 4294967296⟩, s.mem⟩ := by
  apply h.member sub (by omega) (by omega)
  rw [Objects.cursor, Mem.read32_write32, Mem.read32_write32_ne _ _ (by omega),
    Mem.read32_write32_ne _ _ (by omega), h.x, h.y]

/-- Writes to the screen, the same on both sides. -/
theorem screen (apart : o.Apart lfb) (sub : o.screen lfb ⊆ V) {mem : Mem}
    (drawn : AgreeOff (o.screen lfb) m m') (same : AgreeOff (o.cursorBytes ∪ o.buffers) m' mem) :
    Holds o V m₀ m' ⟨s.cursor, mem⟩ := by
  have member {a : Nat} (lo : o.canvas ≤ a) (hi : a + 4 ≤ o.canvas + 12) :
      m'.read32 a = m.read32 a :=
    (drawn.readLE (apart.cursor.mono_left (Set.Ico_subset_Ico lo hi))).symm
  constructor
  · rw [Objects.cursor, member (by omega) (by omega), member (by omega) (by omega),
      member (by omega) (by omega)]
    exact h.cursor
  · exact same
  · exact h.frame.trans (drawn.mono sub)

/-- Stores to pixels. -/
theorem store (apart : o.Apart lfb) (sub : o.screen lfb ⊆ V) {writes : List (Int × Nat)}
    (inside : ∀ w ∈ writes, 0 ≤ w.1 ∧ w.1 < (lfb.height * lfb.ppsl : Nat)) :
    Holds o V m₀ (storePixels o.base m writes) ⟨s.cursor, storePixels o.base s.mem writes⟩ := by
  apply h.screen apart sub
  · exact storePixels_agree (Nat.le_of_lt apart.room) m inside
  · exact storePixels_congr h.mem o.base writes

/-- The framebuffer lies apart from the cursor and the buffers. -/
theorem pixel (apart : o.Apart lfb) {px py : Nat} (hx : px < lfb.ppsl) (hy : py < lfb.height) :
    pixelsOf o.base m (pixelAt lfb px py) = pixelsOf o.base s.mem (pixelAt lfb px py) := by
  have place : px + py * lfb.ppsl < lfb.height * lfb.ppsl := pixelAt_inside hx hy
  have address := pixel_address (Nat.le_of_lt apart.room) (i := pixelAt lfb px py)
    (by unfold pixelAt; omega) (by unfold pixelAt; omega)
  have index : (pixelAt lfb px py).toNat = px + py * lfb.ppsl := by
    unfold pixelAt
    omega
  have onScreen : span (o.base + 4 * (px + py * lfb.ppsl)) 4 ⊆ o.screen lfb :=
    Set.Ico_subset_Ico (by omega) (by omega)
  rw [pixelsOf, pixelsOf, address, index]
  apply h.mem.readLE
  intro a listed here
  rcases here with cursor | buffer
  · exact apart.cursor a cursor (onScreen listed)
  · exact apart.buffers a buffer (Set.subset_union_right (onScreen listed))

end

end Holds

/-! ## `kwrite` -/

section
variable {o : Objects} {lfb : Framebuffer} {font : Psf1Font} {W : Set Nat} {m₀ m : Mem}
  (placed : o.Placed lfb font W m)
include placed

/-- Below the screen the text goes on at the top. -/
theorem wrap_holds {mem : Mem} {c : Canvas}
    (h : Holds o (o.touched lfb) m m (shown o lfb mem c)) :
    Holds o (o.touched lfb) m
      (if m.read32 (o.canvas + 4) ≥ m.read32 (m.read64 (o.canvas + 16) + 20) then
        (m.writeLE (o.canvas + 8) 4 (m.read32 (o.canvas + 8) + 300)).writeLE (o.canvas + 4) 4 10
      else m)
      (shown o lfb mem (c.wrap lfb)) := by
  have cursorBytes : o.cursorBytes ⊆ o.touched lfb := Set.subset_union_left
  rw [placed.canvasLfb, placed.height, h.y, h.prevX, Canvas.wrap]
  show Holds o _ m (if c.y ≥ lfb.height then _ else m) _
  split
  · exact (h.setPrevX cursorBytes (c.prevX + 300)).setY cursorBytes 10
  · exact h

variable (apart : o.Apart lfb) (sub : o.touched lfb ⊆ W)
include apart sub

/-- **One character.** -/
theorem write_holds {ptr : Nat} {str : CString} (string : StringAt W m ptr str) {i : Int}
    (below : u64 i < str.bytes.length) (color : Nat) {mem : Mem} {c : Canvas}
    (fits : ∀ a ∈ (c.write lfb font color (str.bytes.getD (u64 i) 0)).accesses,
      Fits o lfb font W m a)
    (h : Holds o (o.touched lfb) m₀ m (shown o lfb mem c)) :
    Holds o (o.touched lfb) m₀ (write o.canvas ptr color i m)
      (shown o lfb mem (c.write lfb font color (str.bytes.getD (u64 i) 0))) := by
  have cursorBytes : o.cursorBytes ⊆ o.touched lfb := Set.subset_union_left
  have screen : o.screen lfb ⊆ o.touched lfb := Set.subset_union_right
  have here := h.restart (o.touched lfb)
  refine h.trans ?_
  rw [write, string.char (Nat.le_of_lt below)]
  by_cases newline : str.bytes.getD (u64 i) 0 = Canvas.newlineChar
  · rw [if_pos newline, Canvas.write, if_pos newline]
    have left := here.setX cursorBytes (m.read32 (o.canvas + 8))
    have down := left.setY cursorBytes
      ((m.writeLE o.canvas 4 (m.read32 (o.canvas + 8))).read32 (o.canvas + 4) + 20)
    have word : m.read32 (o.canvas + 8) < 4294967296 := Mem.readLE_lt m _ 4
    have same : shown o lfb mem c.newline = ⟨⟨m.read32 (o.canvas + 8) % 4294967296,
        ((m.writeLE o.canvas 4 (m.read32 (o.canvas + 8))).read32 (o.canvas + 4) + 20) % 4294967296,
        c.prevX⟩, storePixels o.base mem (pixelWrites lfb c.accesses)⟩ := by
      rw [left.y, Nat.mod_eq_of_lt word, here.prevX]
      rfl
    rw [same]
    exact down
  · rw [if_neg newline]
    have wrapped := wrap_holds placed here
    generalize (if m.read32 (o.canvas + 4) ≥ m.read32 (m.read64 (o.canvas + 16) + 20) then
        (m.writeLE (o.canvas + 8) 4 (m.read32 (o.canvas + 8) + 300)).writeLE (o.canvas + 4) 4 10
      else m) = m₁ at wrapped ⊢
    have kept := wrapped.frame.mono sub
    have placed₁ := placed.agree kept
    have char₁ := (string.agree kept).char (Nat.le_of_lt below)
    rw [Canvas.write_accesses lfb font color c newline, putChar_append] at fits
    have drawn : ∀ a ∈ KessOS.putChar font color (str.bytes.getD (u64 i) 0) (c.wrap lfb).x
        (c.wrap lfb).y [], Fits o lfb font W m₁ a := fun a listed =>
      (fits a (List.mem_append_left _ listed)).agree kept
    have stores := putChar_stores apart.room (screen.trans sub) placed₁ color _ _ _ drawn
    have stored := wrapped.store apart screen fun w listed => fits_inside drawn listed
    have right := stored.setX cursorBytes
      ((storePixels o.base m₁ (pixelWrites lfb (KessOS.putChar font color
        (str.bytes.getD (u64 i) 0) (c.wrap lfb).x (c.wrap lfb).y []))).read32 o.canvas + 8)
    rw [stored.x] at right
    dsimp only
    rw [placed₁.canvasLfb, placed₁.canvasFont, char₁, wrapped.x, wrapped.y]
    show Holds o _ m ((putChar o.lfb o.font color _ (c.wrap lfb).x (c.wrap lfb).y m₁).writeLE _ 4
      ((putChar o.lfb o.font color _ (c.wrap lfb).x (c.wrap lfb).y m₁).read32 o.canvas + 8)) _
    rw [stores, stored.x]
    have same : shown o lfb mem (c.write lfb font color (str.bytes.getD (u64 i) 0)) =
        ⟨⟨((c.wrap lfb).x + 8) % 4294967296, (c.wrap lfb).y, (c.wrap lfb).prevX⟩,
          storePixels o.base (shown o lfb mem (c.wrap lfb)).mem (pixelWrites lfb
            (KessOS.putChar font color (str.bytes.getD (u64 i) 0) (c.wrap lfb).x
              (c.wrap lfb).y []))⟩ := by
      rw [shown, Canvas.write_accesses lfb font color c newline, putChar_append,
        pixelWrites_append, storePixels_append, Canvas.write, if_neg newline, shown,
        Canvas.wrap_accesses]
      rfl
    rw [same]
    exact right

/-- **A call of `kwrite`.** -/
theorem kwrite_holds {ptr : Nat} {str : CString} (string : StringAt W m ptr str) (color : Nat)
    {mem : Mem} {c : Canvas}
    (fits : ∀ a ∈ (c.kwrite lfb font str color).accesses, Fits o lfb font W m a)
    (h : Holds o (o.touched lfb) m₀ m (shown o lfb mem c)) :
    Holds o (o.touched lfb) m₀ (kwrite o.canvas ptr color m)
      (shown o lfb mem (c.kwrite lfb font str color)) := by
  refine h.trans ?_
  refine @forBound_rel Canvas Mem u64 (fun m => strlen m ptr) str.bytes.length
    (write o.canvas ptr color) (fun i c => c.write lfb font color (str.bytes.getD (u64 i) 0))
    (fun m' c => Holds o (o.touched lfb) m m' (shown o lfb mem c))
    (fun c => ∀ a ∈ c.accesses, Fits o lfb font W m a) ?_ ?_ ?_ intFuel 0 m c ?_ fits
  · intro m' c _ held
    exact strlen_eq (string.agree (held.frame.mono sub))
  · intro i c good a listed
    exact good a (Canvas.write_accesses_mono lfb font color _ listed)
  · intro k m' c below good held
    have kept := held.frame.mono sub
    exact write_holds (placed.agree kept) apart sub (string.agree kept) below color
      (fun a listed => (good a listed).agree kept) held
  · exact h.restart _

end

/-! ## `clearScreen` and `draw_square` -/

section
variable {o : Objects} {lfb : Framebuffer} {font : Psf1Font} {W : Set Nat} {m₀ m : Mem}
  (placed : o.Placed lfb font W m) (apart : o.Apart lfb) (sub : o.screen lfb ⊆ W)
include placed apart sub

/-- The loop over the scanlines reads its bound and the base in every round. -/
theorem clearLines_eq (narrow : lfb.ppsl < 1073741824) (short : lfb.height < 2147483648)
    (color : Nat) :
    forBound u32 (fun m => m.read32 (m.read64 (o.canvas + 16) + 20))
      (fun vsl m =>
        let pixPtrBase := (m.read64 (m.read64 (o.canvas + 16)) +
          lfb.ppsl * 4 % 4294967296 * u64 vsl) % 18446744073709551616
        clearLine color ((pixPtrBase + lfb.ppsl * 4 % 4294967296) % 18446744073709551616)
          pointerFuel pixPtrBase m)
      intFuel 0 m = KessOS.clearScreen lfb o.base color m := by
  have room := apart.room
  have loop := @forBound_rel Mem Mem u32 (fun m => m.read32 (m.read64 (o.canvas + 16) + 20))
    lfb.height
    (fun vsl m =>
      let pixPtrBase := (m.read64 (m.read64 (o.canvas + 16)) +
        lfb.ppsl * 4 % 4294967296 * u64 vsl) % 18446744073709551616
      clearLine color ((pixPtrBase + lfb.ppsl * 4 % 4294967296) % 18446744073709551616)
        pointerFuel pixPtrBase m)
    (fun vsl m =>
      let pixPtrBase := (o.base + lfb.ppsl * 4 % 4294967296 * u64 vsl) % 18446744073709551616
      clearLine color ((pixPtrBase + lfb.ppsl * 4 % 4294967296) % 18446744073709551616)
        pointerFuel pixPtrBase m)
    (fun m' t => m' = t ∧ AgreeOff (o.screen lfb) m m') (fun _ => True) ?_ ?_ ?_ intFuel 0 m m
    ⟨rfl, .refl _ m⟩ trivial
  · exact loop.1
  · rintro m' t _ ⟨_, kept⟩
    have placed' := placed.agree (kept.mono sub)
    rw [placed'.canvasLfb, placed'.height]
  · intro _ _ _
    trivial
  · rintro k m' t below _ ⟨rfl, kept⟩
    have placed' := placed.agree (kept.mono sub)
    rw [placed'.canvasLfb, placed'.base]
    constructor
    · rfl
    · -- A line lies in the screen.
      have row : u64 (int32 k) = k % 4294967296 := by
        rw [u32_int32] at below
        unfold u64 int32
        split <;> omega
      rw [u32_int32] at below
      have rows : lfb.ppsl * (k % 4294967296 + 1) ≤ lfb.ppsl * lfb.height :=
        Nat.mul_le_mul_left _ below
      have next : lfb.ppsl * (k % 4294967296 + 1) = lfb.ppsl * (k % 4294967296) + lfb.ppsl :=
        Nat.mul_succ _ _
      have all : lfb.ppsl * lfb.height = lfb.height * lfb.ppsl := Nat.mul_comm _ _
      have here : lfb.ppsl * 4 * (k % 4294967296) = 4 * (lfb.ppsl * (k % 4294967296)) := by ring
      dsimp only
      rw [row, Nat.mod_eq_of_lt (show lfb.ppsl * 4 < 4294967296 by omega), here,
        Nat.mod_eq_of_lt (show o.base + 4 * (lfb.ppsl * (k % 4294967296)) < 18446744073709551616
          by omega),
        Nat.mod_eq_of_lt (by omega), Nat.mul_comm lfb.ppsl 4,
        clearLine_eq color (by omega) (by unfold pointerFuel; omega)]
      exact kept.trans (Mem.blit_agree m' (Set.Ico_subset_Ico (by omega) (by omega)) _)

/-- **A call of `clearScreen`.** -/
theorem clearScreen_holds (narrow : lfb.ppsl < 1073741824) (short : lfb.height < 2147483648)
    (color : Nat) {s : Screen} (h : Holds o (o.touched lfb) m₀ m s) :
    Holds o (o.touched lfb) m₀ (clearScreen o.canvas color m)
      (s.clearScreen lfb o.base color) := by
  have cursorBytes : o.cursorBytes ⊆ o.touched lfb := Set.subset_union_left
  have cleared : Holds o (o.touched lfb) m₀ (KessOS.clearScreen lfb o.base color m)
      ⟨s.cursor, KessOS.clearScreen lfb o.base color s.mem⟩ := by
    apply h.screen apart Set.subset_union_right
    · rw [clearScreen_eq narrow short apart.room]
      exact Mem.blit_agree m (Set.Subset.refl _) _
    · rw [clearScreen_eq narrow short apart.room, clearScreen_eq narrow short apart.room]
      exact h.mem.blit _ _ _
  rw [clearScreen, placed.canvasLfb, placed.ppsl]
  dsimp only
  rw [clearLines_eq placed apart sub narrow short]
  exact ((cleared.setPrevX cursorBytes 0).setX cursorBytes 0).setY cursorBytes 55

/-- The pixels of a square are stored where the value-level model has them. -/
theorem drawSquare_stores {x y w h color : Nat}
    (inside : OnScreen lfb (KessOS.drawSquare lfb x y w h color [])) :
    drawSquare o.lfb x y w h color m =
      storePixels o.base m (KessOS.drawSquare lfb x y w h color []) := by
  have range {out : List (Int × Nat)} (fits : OnScreen lfb out) :
      ∀ e ∈ out, 0 ≤ e.1 ∧ e.1 < (lfb.height * lfb.ppsl : Nat) := by
    intro e listed
    exact_mod_cast fits e listed
  have pixel (sx sy : Nat) {m' : Mem} {out : List (Int × Nat)} (fits : OnScreen lfb out)
      (same : m' = storePixels o.base m out) :
      putPix o.lfb sx sy color m' = storePixels o.base m (KessOS.putPix lfb sx sy color out) := by
    have kept : AgreeOff W m m' := by
      rw [same]
      exact (storePixels_agree (Nat.le_of_lt apart.room) m (range fits)).mono sub
    have placed' := placed.agree kept
    rw [putPix, placed'.ppsl, placed'.base, same]
    rfl
  have tail {sx sy : Nat} {out : List (Int × Nat)}
      (fits : OnScreen lfb (KessOS.putPix lfb sx sy color out)) : OnScreen lfb out :=
    fun e listed => fits e (List.mem_cons_of_mem _ listed)
  refine @forBound_rel (List (Int × Nat)) Mem u32 _ _ _ _
    (fun m' out => m' = storePixels o.base m out) (OnScreen lfb) ?_ ?_ ?_ intFuel x m [] rfl inside
  · intro _ _ _ _
    rfl
  · intro sx out fits
    exact forInt_back (fun _ _ => tail) _ fits
  · intro i m' out _ fits same
    refine @forBound_rel (List (Int × Nat)) Mem u32 _ _ _ _
      (fun m' out => m' = storePixels o.base m out) (OnScreen lfb) ?_ ?_ ?_ intFuel y m' out same
      fits
    · intro _ _ _ _
      rfl
    · intro _ _
      exact tail
    · intro j m' out _ fits same
      exact pixel _ _ (tail fits) same

/-- **A call of `draw_square`.** -/
theorem drawSquare_holds {x y w h color : Nat}
    (inside : OnScreen lfb (KessOS.drawSquare lfb x y w h color [])) {s : Screen}
    (held : Holds o (o.touched lfb) m₀ m s) :
    Holds o (o.touched lfb) m₀ (drawSquare o.lfb x y w h color m)
      (s.drawSquare lfb o.base x y w h color) := by
  rw [drawSquare_stores placed apart sub inside]
  apply held.store apart Set.subset_union_right
  intro e listed
  exact_mod_cast inside e listed

end

end KessOS.InMemory
