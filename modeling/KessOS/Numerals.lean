import Mathlib.Data.Nat.Digits.Lemmas

/-!
# Numerals

Positional notation in any base and over any alphabet.

* `text`: the digits of a number, most significant first, none for 0;
* `read`: the value of a text, from left to right;
* `numeral_canonical`, `read_numeral`: the numeral of a number is canonical, and
  reading it gives the number.
-/

namespace KessOS

/-- One character for each digit below the base, told apart by their values. -/
structure Numerals (α : Type) where
  base : Nat
  two_le : 1 < base
  digit : Nat → α
  value : α → Option Nat
  value_digit : ∀ d, d < base → value (digit d) = some d

namespace Numerals

variable {α : Type} (N : Numerals α)

def text (n : Nat) : List α := ((Nat.digits N.base n).map N.digit).reverse

/-- The numeral of a number, which for 0 is a digit. -/
def numeral (n : Nat) : List α := if n = 0 then [N.digit 0] else N.text n

def readFrom : Nat → List α → Option Nat
  | acc, [] => some acc
  | acc, c :: rest => (N.value c).bind fun d => readFrom (N.base * acc + d) rest

/-- The value of a text of at least one digit. -/
def read : List α → Option Nat
  | [] => none
  | c :: rest => N.readFrom 0 (c :: rest)

/-- Digits, without leading zeros. -/
structure Canonical (ds : List α) : Prop where
  nonempty : ds ≠ []
  digits : ∀ c ∈ ds, (N.value c).isSome
  leading : 1 < ds.length → ds.head? ≠ some (N.digit 0)

theorem digit_inj {d e : Nat} (hd : d < N.base) (he : e < N.base) (same : N.digit d = N.digit e) :
    d = e := by
  have values := N.value_digit d hd
  rw [same, N.value_digit e he] at values
  exact (Option.some.inj values).symm

theorem readFrom_map {ds : List Nat} (small : ∀ d ∈ ds, d < N.base) (acc : Nat) :
    N.readFrom acc (ds.map N.digit) = some (ds.foldl (fun acc d => N.base * acc + d) acc) := by
  induction ds generalizing acc with
  | nil => rfl
  | cons d ds ih =>
    have first := N.value_digit d (small d List.mem_cons_self)
    rw [List.map_cons, readFrom, first, Option.bind_some, List.foldl_cons]
    exact ih (fun e listed => small e (List.mem_cons_of_mem d listed)) _

/-- Reading the digits of a number after some others. -/
theorem readFrom_text (n : Nat) : N.readFrom 0 (N.text n) = some n := by
  have small : ∀ d ∈ (Nat.digits N.base n).reverse, d < N.base := by
    intro d listed
    exact Nat.digits_lt_base N.two_le (List.mem_reverse.mp listed)
  have value : (Nat.digits N.base n).reverse.foldl (fun acc d => N.base * acc + d) 0 = n := by
    have digits := Nat.ofDigits_digits N.base n
    rw [Nat.ofDigits_eq_foldr] at digits
    rw [List.foldl_reverse]
    simpa only [Nat.cast_id, Nat.add_comm] using digits
  rw [text, ← List.map_reverse, readFrom_map N small, value]

theorem mem_text {n : Nat} {c : α} (listed : c ∈ N.text n) : ∃ d, d < N.base ∧ c = N.digit d := by
  rw [text, List.mem_reverse, List.mem_map] at listed
  obtain ⟨d, digit, rfl⟩ := listed
  exact ⟨d, Nat.digits_lt_base N.two_le digit, rfl⟩

/-- The first digit of a number is not zero. -/
theorem text_head {n : Nat} (pos : n ≠ 0) : ∃ d rest, 0 < d ∧ d < N.base ∧
    N.text n = N.digit d :: rest := by
  have some : Nat.digits N.base n ≠ [] := Nat.digits_ne_nil_iff_ne_zero.mpr pos
  have last := Nat.getLast_digit_ne_zero N.base pos
  have split : (Nat.digits N.base n).reverse =
      (Nat.digits N.base n).getLast some :: (Nat.digits N.base n).dropLast.reverse := by
    conv_lhs => rw [← List.dropLast_append_getLast some]
    rw [List.reverse_append]
    rfl
  refine ⟨_, (Nat.digits N.base n).dropLast.reverse.map N.digit, Nat.pos_of_ne_zero last,
    Nat.digits_lt_base N.two_le (List.getLast_mem some), ?_⟩
  rw [text, ← List.map_reverse, split, List.map_cons]

theorem text_ne_nil {n : Nat} (pos : n ≠ 0) : N.text n ≠ [] := by
  obtain ⟨d, rest, _, _, split⟩ := N.text_head pos
  rw [split]
  exact List.cons_ne_nil _ _

theorem length_text {n k : Nat} (small : n < N.base ^ k) : (N.text n).length ≤ k := by
  rw [text, List.length_reverse, List.length_map]
  exact (Nat.digits_length_le_iff N.two_le n).mpr small

/-- The digits of a number before its last one. -/
theorem text_div {n : Nat} (pos : n ≠ 0) :
    N.text n = N.text (n / N.base) ++ [N.digit (n % N.base)] := by
  rw [text, text, Nat.digits_def' N.two_le (Nat.pos_of_ne_zero pos), List.map_cons,
    List.reverse_cons]

theorem mem_numeral {n : Nat} {c : α} (listed : c ∈ N.numeral n) :
    ∃ d, d < N.base ∧ c = N.digit d := by
  have two_le := N.two_le
  unfold numeral at listed
  split at listed
  · exact ⟨0, by omega, List.mem_singleton.mp listed⟩
  · exact N.mem_text listed

theorem read_numeral (n : Nat) : N.read (N.numeral n) = some n := by
  have two_le := N.two_le
  unfold numeral
  split
  · next zero =>
    subst zero
    simp [read, readFrom, N.value_digit 0 (by omega)]
  · next pos =>
    obtain ⟨d, rest, _, _, split⟩ := N.text_head pos
    have value := N.readFrom_text n
    rw [split] at value ⊢
    exact value

/-- **The numeral of a number is canonical.** -/
theorem numeral_canonical (n : Nat) : N.Canonical (N.numeral n) := by
  have two_le := N.two_le
  constructor
  · unfold numeral
    split
    · exact List.cons_ne_nil _ _
    · next pos => exact N.text_ne_nil pos
  · intro c listed
    obtain ⟨d, small, rfl⟩ := N.mem_numeral listed
    rw [N.value_digit d small]
    rfl
  · unfold numeral
    split
    · intro long
      exact absurd long (by simp)
    · next pos =>
      intro _ zero
      obtain ⟨d, rest, above, small, split⟩ := N.text_head pos
      rw [split, List.head?_cons, Option.some.injEq] at zero
      have := N.digit_inj small (by omega) zero
      omega

/-- A leading zero does not change the value. -/
theorem read_zero_cons {text : List α} {n : Nat} (value : N.read text = some n) :
    N.read (N.digit 0 :: text) = some n := by
  have two_le := N.two_le
  cases text with
  | nil => cases value
  | cons c rest =>
    rw [read, readFrom, N.value_digit 0 (by omega)]
    exact value

end Numerals

end KessOS
