import Mathlib.Data.Set.Function
import Mathlib.Order.Interval.Set.Basic
import KessOS.Bytes

/-!
# Footprints in memory

A routine writes inside a set of addresses, its footprint. Outside of it memory
stays as it was, and what lies there reads the same.
-/

namespace KessOS.Mem

variable {W V : Set Nat} {m m' m'' : Mem}

/-- The addresses of an object. -/
abbrev span (a n : Nat) : Set Nat := Set.Ico a (a + n)

/-- No address of the set is in the footprint. -/
def Avoids (A W : Set Nat) : Prop := ∀ a ∈ A, a ∉ W

theorem Avoids.symm {A : Set Nat} (h : Avoids A W) : Avoids W A :=
  fun a written listed => h a listed written

theorem Avoids.mono_left {A B : Set Nat} (h : Avoids B W) (sub : A ⊆ B) : Avoids A W :=
  fun a listed => h a (sub listed)

theorem Avoids.mono_right {A : Set Nat} (h : Avoids A W) (sub : V ⊆ W) : Avoids A V :=
  fun a listed written => h a listed (sub written)

/-- The memories differ inside the footprint at most. -/
def AgreeOff (W : Set Nat) (m m' : Mem) : Prop := Set.EqOn m m' Wᶜ

namespace AgreeOff

theorem refl (W : Set Nat) (m : Mem) : AgreeOff W m m := Set.eqOn_refl m Wᶜ

theorem symm (h : AgreeOff W m m') : AgreeOff W m' m := Set.EqOn.symm h

theorem trans (h : AgreeOff W m m') (h' : AgreeOff W m' m'') : AgreeOff W m m'' :=
  Set.EqOn.trans h h'

theorem mono (h : AgreeOff V m m') (sub : V ⊆ W) : AgreeOff W m m' :=
  Set.EqOn.mono (Set.compl_subset_compl.mpr sub) h

/-- The same bytes written to both. -/
theorem blit (h : AgreeOff W m m') (a n : Nat) (f : Nat → UInt8) :
    AgreeOff W (m.blit a n f) (m'.blit a n f) := by
  intro x outside
  unfold Mem.blit
  split
  · rfl
  · exact h outside

theorem writeLE (h : AgreeOff W m m') (a n v : Nat) :
    AgreeOff W (m.writeLE a n v) (m'.writeLE a n v) :=
  h.blit a n _

theorem readLE (h : AgreeOff W m m') {a n : Nat} (apart : Avoids (span a n) W) :
    m.readLE a n = m'.readLE a n := by
  apply readLE_congr
  intro i hi
  exact h (apart (a + i) ⟨Nat.le_add_right a i, Nat.add_lt_add_left hi a⟩)

end AgreeOff

/-- A write inside the footprint. -/
theorem blit_agree (m : Mem) {a n : Nat} (inside : span a n ⊆ W) (f : Nat → UInt8) :
    AgreeOff W m (m.blit a n f) := by
  intro x outside
  rw [blit_outside]
  by_contra within
  exact outside (inside ⟨by omega, by omega⟩)

theorem writeLE_agree (m : Mem) {a n : Nat} (inside : span a n ⊆ W) (v : Nat) :
    AgreeOff W m (m.writeLE a n v) :=
  blit_agree m inside _

/-- An `unsigned int` keeps 32 bits of what is stored. -/
theorem read32_write32 (m : Mem) (a v : Nat) : (m.writeLE a 4 v).read32 a = v % 4294967296 :=
  readLE_writeLE_mod m a 4 v

theorem read32_write32_ne (m : Mem) {a b : Nat} (v : Nat) (h : b + 4 ≤ a ∨ a + 4 ≤ b) :
    (m.writeLE a 4 v).read32 b = m.read32 b :=
  readLE_writeLE_outside m v h

end KessOS.Mem
