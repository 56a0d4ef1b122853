import Mathlib.Algebra.Order.Ring.Int
import Mathlib.Tactic.Linarith
import Mathlib.Tactic.Ring

/-!
# Rectangles of residues

Numbers `c + i + j * p` taken modulo 2^32, for `i < w` and `j < h`, where the
stride `p` is a signed 32-bit number. `rectangle_inside`: all residues lie
below a bound of at most 2^31 exactly when no number wraps and the first and
last rows lie in the range.
-/

namespace KessOS.Wrap

variable {c p n : Int}

/-- A run of residues that never leaves the lower half does not wrap. -/
theorem run_inside {s : Int} (lo : 0 ≤ s) (hi : s < 4294967296) (small : n ≤ 2147483648) :
    ∀ {w : Nat}, 0 < w → (∀ i : Nat, i < w → (s + i) % 4294967296 < n) → s + w ≤ n := by
  intro w
  induction w with
  | zero => intro pos; omega
  | succ w ih =>
    intro _ inside
    have last := inside w (by omega)
    rcases Nat.eq_zero_or_pos w with rfl | pos
    · omega
    · have before := ih pos fun i hi => inside i (by omega)
      omega

/-- Rows that start in the lower half start where the stride says. -/
theorem rows_start (lo : 0 ≤ c) (hi : c < 4294967296)
    (stride : -2147483648 ≤ p ∧ p < 2147483648) {h : Nat}
    (inside : ∀ j : Nat, j < h → (c + j * p) % 4294967296 < 2147483648) :
    ∀ j : Nat, j < h → (c + j * p) % 4294967296 = c + j * p := by
  intro j
  induction j with
  | zero => intro _; omega
  | succ j ih =>
    intro hj
    have here := ih (by omega)
    have below := inside j (by omega)
    have next := inside (j + 1) hj
    have split : c + (j + 1 : Nat) * p = c + j * p + p := by push_cast; ring
    rw [split] at next ⊢
    omega

/-- Between its first and its last row a stride stays within their bounds. -/
theorem between {h j : Nat} (hj : j < h) :
    min 0 ((h - 1 : Nat) * p) ≤ j * p ∧ j * p ≤ max 0 ((h - 1 : Nat) * p) := by
  have le : (j : Int) ≤ (h - 1 : Nat) := by omega
  cases le_or_gt 0 p with
  | inl pos =>
    have first : 0 ≤ (j : Int) * p := mul_nonneg (Int.natCast_nonneg j) pos
    have last := mul_le_mul_of_nonneg_right le pos
    exact ⟨(min_le_left _ _).trans first, last.trans (le_max_right _ _)⟩
  | inr neg =>
    have first : (j : Int) * p ≤ 0 :=
      mul_nonpos_of_nonneg_of_nonpos (Int.natCast_nonneg j) neg.le
    have last := mul_le_mul_of_nonpos_right le neg.le
    exact ⟨(min_le_right _ _).trans last, first.trans (le_max_left _ _)⟩

theorem rectangle_inside (lo : 0 ≤ c) (hi : c < 4294967296)
    (stride : -2147483648 ≤ p ∧ p < 2147483648) (small : n ≤ 2147483648) {w h : Nat}
    (hw : 0 < w) (hh : 0 < h) :
    (∀ i j : Nat, i < w → j < h → (c + i + j * p) % 4294967296 < n) ↔
      c + w ≤ n ∧ 0 ≤ c + (h - 1 : Nat) * p ∧ c + (h - 1 : Nat) * p + w ≤ n := by
  constructor
  · intro inside
    have rows : ∀ j : Nat, j < h → (c + j * p) % 4294967296 < 2147483648 := by
      intro j hj
      have := inside 0 j hw hj
      simp only [Nat.cast_zero, add_zero] at this
      omega
    have starts := rows_start lo hi stride rows
    have row (j : Nat) (hj : j < h) : 0 ≤ c + j * p ∧ c + j * p + w ≤ n := by
      have start := starts j hj
      have below := rows j hj
      refine ⟨by omega, run_inside (by omega) (by omega) small hw fun i hi => ?_⟩
      have := inside i j hi hj
      rwa [add_right_comm] at this
    have first := (row 0 hh).2
    have last := row (h - 1) (by omega)
    simp only [Nat.cast_zero, zero_mul, add_zero] at first
    exact ⟨first, last⟩
  · rintro ⟨first, low, last⟩ i j hi hj
    obtain ⟨below, above⟩ := between (p := p) hj
    rw [add_right_comm, Int.emod_eq_of_lt]
    · omega
    · omega
    · omega

end KessOS.Wrap
