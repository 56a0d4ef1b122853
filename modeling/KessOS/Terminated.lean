import Mathlib.Data.List.Range

/-!
# Sequences with a terminator

A sequence of symbols counts up to its first terminator. Two of them agree on
`n` symbols when `n` symbols are equal, or all up to a common terminator.

* `text_eq_iff`: equal texts, read off the symbols up to the first terminator;
* `text_eq_of_past`: symbols equal beyond a terminator make equal texts;
* `agree_iff`: what agreement is for different texts.
-/

namespace KessOS.Terminated

variable {α : Type} {z : α} {c d : Nat → α} {k l n : Nat}

/-- The first terminator of `c` is at `k`. -/
structure EndsAt (z : α) (c : Nat → α) (k : Nat) : Prop where
  symbols : ∀ j, j < k → c j ≠ z
  terminator : c k = z

def text (c : Nat → α) (k : Nat) : List α := (List.range k).map c

/-- Equal symbols up to index `n`, or up to a common terminator before `n`. -/
def Agree (z : α) (c d : Nat → α) (n : Nat) : Prop :=
  (∀ j, j < n → c j = d j) ∨ ∃ t, t < n ∧ c t = z ∧ d t = z ∧ ∀ j, j < t → c j = d j

/-- A terminator is not before the first one. -/
theorem EndsAt.le (hc : EndsAt z c k) {t : Nat} (terminator : c t = z) : k ≤ t := by
  by_contra before
  exact hc.symbols t (by omega) terminator

/-- Equality as far as both sequences go reaches a terminator of both. -/
theorem same_end (hc : EndsAt z c k) (hd : EndsAt z d l)
    (equal : ∀ j, j ≤ k → j ≤ l → c j = d j) : k = l := by
  rcases Nat.lt_trichotomy k l with less | same | more
  · have stop := equal k (Nat.le_refl k) (Nat.le_of_lt less)
    rw [hc.terminator] at stop
    exact absurd stop.symm (hd.symbols k less)
  · exact same
  · have stop := equal l (Nat.le_of_lt more) (Nat.le_refl l)
    rw [hd.terminator] at stop
    exact absurd stop (hc.symbols l more)

theorem text_eq_iff (hc : EndsAt z c k) (hd : EndsAt z d l) :
    text c k = text d l ↔ ∀ j, j ≤ k → j ≤ l → c j = d j := by
  constructor
  · intro same j left right
    have ends : k = l := by simpa [text] using congrArg List.length same
    subst ends
    rcases Nat.lt_or_eq_of_le left with inside | rfl
    · exact List.map_inj_left.mp same j (List.mem_range.mpr inside)
    · rw [hc.terminator, hd.terminator]
  · intro equal
    have ends := same_end hc hd equal
    subst ends
    apply List.map_congr_left
    intro j listed
    have inside := List.mem_range.mp listed
    exact equal j (Nat.le_of_lt inside) (Nat.le_of_lt inside)

/-- Symbols equal up to an index beyond one of the terminators. -/
theorem text_eq_of_past (hc : EndsAt z c k) (hd : EndsAt z d l) {t : Nat}
    (past : k < t ∨ l < t) (equal : ∀ j, j < t → c j = d j) : text c k = text d l := by
  rw [text_eq_iff hc hd]
  intro j left right
  exact equal j (by omega)

theorem agree_of_text_eq (hc : EndsAt z c k) (hd : EndsAt z d l) (same : text c k = text d l)
    (n : Nat) : Agree z c d n := by
  rw [text_eq_iff hc hd] at same
  have ends := same_end hc hd same
  subst ends
  by_cases short : n ≤ k
  · refine Or.inl fun j before => ?_
    exact same j (by omega) (by omega)
  · refine Or.inr ⟨k, by omega, hc.terminator, hd.terminator, fun j before => ?_⟩
    exact same j (by omega) (by omega)

/-- Different texts have no common terminator in front of which they are equal. -/
theorem agree_iff (hc : EndsAt z c k) (hd : EndsAt z d l) (differ : text c k ≠ text d l) :
    Agree z c d n ↔ ∀ j, j < n → c j = d j := by
  constructor
  · rintro (equal | ⟨t, _, left, right, equal⟩)
    · exact equal
    · have past := hc.le left
      refine absurd (text_eq_of_past hc hd (Or.inl (Nat.lt_succ_of_le past)) ?_) differ
      intro j before
      rcases Nat.lt_or_eq_of_le (Nat.le_of_lt_succ before) with earlier | rfl
      · exact equal j earlier
      · rw [left, right]
  · exact Or.inl

end KessOS.Terminated
