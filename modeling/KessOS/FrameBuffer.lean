import KessOS.CLoop
import KessOS.Wrap

/-!
# Drawing on the screen

`draw_square` computes pixel indices with 32-bit arithmetic and does not look
at the screen's size. `drawSquare_inside` says when its writes stay inside.
-/

namespace KessOS

/-- The geometry of the screen, in `unsigned int`s. -/
structure Framebuffer where
  width : Nat
  height : Nat
  ppsl : Nat
  fits : width ≤ ppsl
  heightWord : height < 4294967296
  ppslWord : ppsl < 4294967296

/-- A VGA screen. -/
def vga : Framebuffer := ⟨640, 480, 640, by decide, by decide, by decide⟩

/-- An index is computed as `unsigned int` and returned as `int`. -/
def getPixelIdx (lfb : Framebuffer) (x y : Int) : Int := int32 (u32 (x + y * lfb.ppsl))

/-- The index and the colour of a write, put in front of the earlier ones. -/
def putPix (lfb : Framebuffer) (x y color : Nat) (out : List (Int × Nat)) : List (Int × Nat) :=
  (getPixelIdx lfb (int32 x) (int32 y), color) :: out

/-- The counters are `int`s, the bounds `unsigned int`s. -/
def drawSquare (lfb : Framebuffer) (x y w h color : Nat) (out : List (Int × Nat)) :
    List (Int × Nat) :=
  forInt u32 ((x + w) % 4294967296)
    (fun sx out =>
      forInt u32 ((y + h) % 4294967296)
        (fun sy out => putPix lfb (u32 sx) (u32 sy) color out)
        intFuel (int32 y) out)
    intFuel (int32 x) out

/-! ## The indices written -/

theorem int32_emod (u : Nat) : int32 u % 4294967296 = (u : Int) % 4294967296 := by
  unfold int32
  split <;> omega

theorem int32_mod (u : Nat) : int32 (u % 4294967296) = int32 u := by
  unfold int32
  rw [Nat.mod_mod]

theorem getPixelIdx_eq (lfb : Framebuffer) (x y : Nat) :
    getPixelIdx lfb (int32 x) (int32 y) = int32 (x + y * lfb.ppsl) := by
  have same : (int32 x + int32 y * lfb.ppsl) % 4294967296 =
      ((x + y * lfb.ppsl : Nat) : Int) % 4294967296 := by
    push_cast
    rw [Int.add_emod, Int.mul_emod, int32_emod, int32_emod, ← Int.mul_emod, ← Int.add_emod]
  have word : u32 (int32 x + int32 y * lfb.ppsl) = (x + y * lfb.ppsl) % 4294967296 := by
    unfold u32
    omega
  rw [getPixelIdx, word, int32_mod]

/-- What a loop adds to a list, iteration by iteration. -/
theorem mem_foldl_range {β : Type} {e : β} {P : Nat → Prop} {g : Nat → List β → List β}
    (step : ∀ k out, e ∈ g k out ↔ e ∈ out ∨ P k) (n : Nat) (out : List β) :
    e ∈ (List.range n).foldl (fun out k => g k out) out ↔ e ∈ out ∨ ∃ k, k < n ∧ P k := by
  induction n with
  | zero => simp
  | succ n ih =>
    rw [List.range_succ, List.foldl_append, List.foldl_cons, List.foldl_nil, step, ih]
    constructor
    · rintro ((h | ⟨k, hk, h⟩) | h)
      · exact Or.inl h
      · exact Or.inr ⟨k, by omega, h⟩
      · exact Or.inr ⟨n, by omega, h⟩
    · rintro (h | ⟨k, hk, h⟩)
      · exact Or.inl (Or.inl h)
      · by_cases last : k = n
        · exact Or.inr (last ▸ h)
        · exact Or.inl (Or.inr ⟨k, by omega, h⟩)

/-- A counter from `x` to below `x + w` runs through `x, ..., x + w - 1`, unless
the bound wraps: then not at all. -/
theorem mem_forInt_span {β : Type} {e : β} {P : Nat → Prop} {body : Int → List β → List β}
    {x w : Nat} (hx : x < 4294967296) (hw : w < 4294967296)
    (step : ∀ k out, e ∈ body (int32 (x + k)) out ↔ e ∈ out ∨ P k) (out : List β) :
    e ∈ forInt u32 ((x + w) % 4294967296) body intFuel (int32 x) out ↔
      e ∈ out ∨ x + w < 4294967296 ∧ ∃ k, k < w ∧ P k := by
  rw [forInt_u32 body (Nat.mod_lt _ (by decide)), Nat.mod_eq_of_lt hx]
  by_cases wraps : x + w < 4294967296
  · rw [Nat.mod_eq_of_lt wraps]
    by_cases empty : w = 0
    · subst empty
      rw [if_neg (by omega)]
      simp
    · rw [if_pos (by omega), mem_foldl_range step, show x + w - x = w by omega]
      simp only [wraps, true_and]
  · rw [if_neg (by omega)]
    simp [wraps]

theorem mem_drawSquare (lfb : Framebuffer) {x y w h color : Nat} (hx : x < 4294967296)
    (hy : y < 4294967296) (hw : w < 4294967296) (hh : h < 4294967296) (e : Int × Nat)
    (out : List (Int × Nat)) : e ∈ drawSquare lfb x y w h color out ↔
      e ∈ out ∨ x + w < 4294967296 ∧ ∃ i, i < w ∧ y + h < 4294967296 ∧ ∃ j, j < h ∧
        e = (int32 (x + i + (y + j) * lfb.ppsl), color) := by
  have pixel (i j : Nat) (out : List (Int × Nat)) :
      e ∈ putPix lfb (u32 (int32 (x + i))) (u32 (int32 (y + j))) color out ↔
        e ∈ out ∨ e = (int32 (x + i + (y + j) * lfb.ppsl), color) := by
    rw [putPix, u32_int32, u32_int32, int32_mod, int32_mod, getPixelIdx_eq, List.mem_cons, or_comm]
  exact mem_forInt_span hx hw (fun i out => mem_forInt_span hy hh (fun j out => pixel i j out) out)
    out

/-- Every index written lies on the screen. -/
def OnScreen (lfb : Framebuffer) (writes : List (Int × Nat)) : Prop :=
  ∀ e ∈ writes, 0 ≤ e.1 ∧ e.1 < lfb.height * lfb.ppsl

/-- The rectangle is empty in 32-bit arithmetic, or its first and last rows lie
inside the screen, as far as an `int` can count pixels. A stride of 2^31 pixels
or more is a negative `int`. -/
def Harmless (lfb : Framebuffer) (x y w h : Nat) : Prop :=
  w = 0 ∨ h = 0 ∨ 4294967296 ≤ x + w ∨ 4294967296 ≤ y + h ∨
    let first : Int := ((x + y * lfb.ppsl) % 4294967296 : Nat)
    let last := first + (h - 1 : Nat) * int32 lfb.ppsl
    let bound := min (lfb.height * lfb.ppsl : Int) 2147483648
    first + w ≤ bound ∧ 0 ≤ last ∧ last + w ≤ bound

/-- An index is on the screen when the residue it is made from is. -/
theorem index_onScreen (lfb : Framebuffer) (x y i j : Nat) :
    (0 ≤ int32 (x + i + (y + j) * lfb.ppsl) ∧
      int32 (x + i + (y + j) * lfb.ppsl) < lfb.height * lfb.ppsl) ↔
    (((x + y * lfb.ppsl) % 4294967296 : Nat) + i + j * int32 lfb.ppsl) % 4294967296 <
      min (lfb.height * lfb.ppsl : Int) 2147483648 := by
  have residue : ((x + i + (y + j) * lfb.ppsl : Nat) : Int) % 4294967296 =
      (((x + y * lfb.ppsl) % 4294967296 : Nat) + i + j * int32 lfb.ppsl) % 4294967296 := by
    obtain ⟨e, stride⟩ : ∃ e : Int, int32 lfb.ppsl = lfb.ppsl + 4294967296 * e := by
      have word := lfb.ppslWord
      unfold int32
      split
      · exact ⟨0, by omega⟩
      · exact ⟨-1, by omega⟩
    have first : (((x + y * lfb.ppsl) % 4294967296 : Nat) : Int) =
        (x + y * lfb.ppsl : Nat) - 4294967296 * ((x + y * lfb.ppsl) / 4294967296 : Nat) := by
      omega
    have sum : (((x + y * lfb.ppsl) % 4294967296 : Nat) : Int) + i + j * int32 lfb.ppsl =
        (x + i + (y + j) * lfb.ppsl : Nat) +
          4294967296 * (j * e - ((x + y * lfb.ppsl) / 4294967296 : Nat)) := by
      rw [first, stride]
      push_cast
      ring
    rw [sum, Int.add_mul_emod_self_left]
  rw [← residue, lt_min_iff]
  unfold int32
  split <;> omega

/-- **When a square stays on the screen.** -/
theorem drawSquare_inside (lfb : Framebuffer) {x y w h : Nat} (color : Nat)
    (hx : x < 4294967296) (hy : y < 4294967296) (hw : w < 4294967296) (hh : h < 4294967296) :
    OnScreen lfb (drawSquare lfb x y w h color []) ↔ Harmless lfb x y w h := by
  have written : OnScreen lfb (drawSquare lfb x y w h color []) ↔
      (x + w < 4294967296 → y + h < 4294967296 → ∀ i j, i < w → j < h →
        0 ≤ int32 (x + i + (y + j) * lfb.ppsl) ∧
          int32 (x + i + (y + j) * lfb.ppsl) < lfb.height * lfb.ppsl) := by
    constructor
    · intro inside hxw hyh i j hi hj
      refine inside (_, color) ((mem_drawSquare lfb hx hy hw hh _ []).mpr (Or.inr ?_))
      exact ⟨hxw, i, hi, hyh, j, hj, rfl⟩
    · intro inside e he
      cases (mem_drawSquare lfb hx hy hw hh e []).mp he with
      | inl none =>
        cases none
      | inr found =>
        obtain ⟨hxw, i, hi, hyh, j, hj, rfl⟩ := found
        exact inside hxw hyh i j hi hj
  have stride : -2147483648 ≤ int32 lfb.ppsl ∧ int32 lfb.ppsl < 2147483648 := by
    unfold int32
    split <;> omega
  rw [written, Harmless]
  by_cases empty : w = 0 ∨ h = 0 ∨ 4294967296 ≤ x + w ∨ 4294967296 ≤ y + h
  · constructor
    · intro _
      rcases empty with narrow | flat | wide | tall
      · exact Or.inl narrow
      · exact Or.inr (Or.inl flat)
      · exact Or.inr (Or.inr (Or.inl wide))
      · exact Or.inr (Or.inr (Or.inr (Or.inl tall)))
    · intro _ hxw hyh i j hi hj
      omega
  · have rectangle := Wrap.rectangle_inside (c := ((x + y * lfb.ppsl) % 4294967296 : Nat))
      (n := min (lfb.height * lfb.ppsl : Int) 2147483648) (by omega) (by omega) stride
      (min_le_right _ _) (w := w) (h := h) (by omega) (by omega)
    constructor
    · intro inside
      refine Or.inr (Or.inr (Or.inr (Or.inr (rectangle.mp fun i j hi hj => ?_))))
      exact (index_onScreen lfb x y i j).mp (inside (by omega) (by omega) i j hi hj)
    · intro harmless _ _ i j hi hj
      refine (index_onScreen lfb x y i j).mpr (rectangle.mpr ?_ i j hi hj)
      rcases harmless with h | h | h | h | h
      · exact absurd (Or.inl h) empty
      · exact absurd (Or.inr (Or.inl h)) empty
      · exact absurd (Or.inr (Or.inr (Or.inl h))) empty
      · exact absurd (Or.inr (Or.inr (Or.inr h))) empty
      · exact h

end KessOS
