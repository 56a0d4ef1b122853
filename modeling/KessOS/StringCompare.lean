import KessOS.Terminated
import KessOS.Util

/-!
# Bounded string comparison

`strncmp` tests its pointers, which end the loop only where one wraps to `NULL`,
and never a character. Behind a common terminator it goes on comparing.

* `strncmp_literal`: with a literal in memory it is the comparison of `Util`;
* `result_iff`, `mem_reads`: what it returns, and what it reads;
* `decides_result_iff`, `decides_iff`: the strings it is right for.
-/

namespace KessOS.StringCompare

open Terminated (EndsAt Agree)

/-- What a call returns, and the addresses its two pointers are read at. -/
structure Outcome where
  result : Nat
  reads : List (Nat × Nat)

/-- With `n - n_cnt` characters to go. -/
def strncmp (m : Mem) : Nat → Nat → Nat → Outcome
  | _, _, 0 => ⟨1, []⟩
  | s1, s2, n + 1 =>
    if s1 = 0 ∨ s2 = 0 then ⟨1, []⟩
    else if m s1 ≠ m s2 then ⟨0, [(s1, s2)]⟩
    else
      let rest := strncmp m ((s1 + 1) % 18446744073709551616)
        ((s2 + 1) % 18446744073709551616) n
      ⟨rest.result, (s1, s2) :: rest.reads⟩

/-- A string in memory: not at `NULL`, and with its terminator at an address. -/
structure Str (m : Mem) where
  ptr : Nat
  len : Nat
  nonnull : 0 < ptr
  inside : ptr + len < 18446744073709551616
  ends : EndsAt 0 (fun j => m (ptr + j)) len

namespace Str
variable {m : Mem}

def char (a : Str m) (j : Nat) : UInt8 := m (a.ptr + j)

theorem char_ends (a : Str m) : EndsAt 0 a.char a.len := a.ends

/-- The characters in front of the terminator. -/
def text (a : Str m) : List UInt8 := Terminated.text a.char a.len

/-- The terminator is the last byte of the address space. -/
def Last (a : Str m) : Prop := a.ptr + a.len + 1 = 18446744073709551616

end Str

/-- The result is that of the C function, and no read is behind a terminator. -/
structure Decides (m : Mem) (a b : Str m) (n : Nat) : Prop where
  result : (strncmp m a.ptr b.ptr n).result = 1 ↔ Agree 0 a.char b.char n
  inside : ∀ x y, (x, y) ∈ (strncmp m a.ptr b.ptr n).reads →
    a.ptr ≤ x ∧ x ≤ a.ptr + a.len ∧ b.ptr ≤ y ∧ y ≤ b.ptr + b.len

/-- The comparison with a literal that `locate_fadt` uses. -/
theorem strncmp_literal (m : Mem) (f : Nat → UInt8) {s1 s2 i n : Nat} (pos : 0 < s2)
    (fits : s2 + n < 18446744073709551616) (shown : ∀ j, j < n → m (s2 + j) = f (i + j)) :
    KessOS.strncmp m f s1 i n = (strncmp m s1 s2 n).result := by
  induction n generalizing s1 s2 i with
  | zero => rfl
  | succ n ih =>
    obtain ⟨first, rest⟩ := (span_succ m f s2 i n).mp shown
    have next : (s2 + 1) % 18446744073709551616 = s2 + 1 := Nat.mod_eq_of_lt (by omega)
    rw [KessOS.strncmp, strncmp, first, next]
    by_cases null : s1 = 0
    · rw [if_pos null, if_pos (Or.inl null)]
    · have pointers : ¬ (s1 = 0 ∨ s2 = 0) := by omega
      rw [if_neg null, if_neg pointers]
      split
      · rfl
      · exact ih (by omega) (by omega) rest

/-! ## The loop -/

/-- Index `j` is in front of the wrap of either pointer. -/
def InSpace (s1 s2 j : Nat) : Prop :=
  s1 + j < 18446744073709551616 ∧ s2 + j < 18446744073709551616

theorem InSpace.first {s1 s2 j : Nat} (h : InSpace s1 s2 j) : InSpace s1 s2 0 := by
  unfold InSpace at h ⊢
  omega

theorem inSpace_succ {s1 s2 j : Nat} : InSpace (s1 + 1) (s2 + 1) j ↔ InSpace s1 s2 (j + 1) := by
  unfold InSpace
  omega

section
variable (m : Mem) {s1 s2 : Nat} (left : 0 < s1 ∧ s1 ≤ 18446744073709551616)
  (right : 0 < s2 ∧ s2 ≤ 18446744073709551616)
include left right

/-- A pointer that has just wrapped is `NULL`. -/
theorem strncmp_wrapped (wrapped : ¬ InSpace s1 s2 0) (n : Nat) :
    strncmp m (s1 % 18446744073709551616) (s2 % 18446744073709551616) n = ⟨1, []⟩ := by
  cases n with
  | zero => rfl
  | succ n =>
    unfold InSpace at wrapped
    rw [strncmp, if_pos (by omega)]

/-- A round of the loop. -/
theorem strncmp_round (inside : InSpace s1 s2 0) (n : Nat) :
    strncmp m (s1 % 18446744073709551616) (s2 % 18446744073709551616) (n + 1) =
      if m s1 ≠ m s2 then ⟨0, [(s1, s2)]⟩
      else
        let rest := strncmp m ((s1 + 1) % 18446744073709551616)
          ((s2 + 1) % 18446744073709551616) n
        ⟨rest.result, (s1, s2) :: rest.reads⟩ := by
  have first : s1 % 18446744073709551616 = s1 := Nat.mod_eq_of_lt inside.1
  have second : s2 % 18446744073709551616 = s2 := Nat.mod_eq_of_lt inside.2
  have pointers : ¬ (s1 = 0 ∨ s2 = 0) := by omega
  rw [strncmp, first, second, if_neg pointers]

/-- **The reads**: an index is read after equal bytes, unless a pointer wrapped. -/
theorem mem_reads_from (n x y : Nat) :
    (x, y) ∈ (strncmp m (s1 % 18446744073709551616) (s2 % 18446744073709551616) n).reads ↔
      ∃ j, j < n ∧ InSpace s1 s2 j ∧ (∀ i, i < j → m (s1 + i) = m (s2 + i)) ∧
        x = s1 + j ∧ y = s2 + j := by
  induction n generalizing s1 s2 with
  | zero =>
    refine iff_of_false List.not_mem_nil ?_
    rintro ⟨j, none, _⟩
    exact absurd none (Nat.not_lt_zero j)
  | succ n ih =>
    by_cases inside : InSpace s1 s2 0
    · have here : (x, y) = (s1, s2) ↔ InSpace s1 s2 0 ∧
          (∀ i, i < 0 → m (s1 + i) = m (s2 + i)) ∧ x = s1 + 0 ∧ y = s2 + 0 := by
        simp [inside]
      rw [strncmp_round m left right inside, Nat.exists_lt_succ_left, ← here]
      by_cases first : m s1 = m s2
      · have space := inside
        unfold InSpace at space
        rw [if_neg (not_not_intro first)]
        refine List.mem_cons.trans (or_congr_right ((ih (by omega) (by omega)).trans ?_))
        refine exists_congr fun j => and_congr_right fun _ => and_congr inSpace_succ ?_
        rw [Nat.forall_lt_succ_left]
        simp only [Nat.add_right_comm, ← Nat.add_assoc, Nat.add_zero, first, true_and]
      · rw [if_pos first, List.mem_singleton]
        refine (or_iff_left ?_).symm
        rintro ⟨j, _, _, equal, _⟩
        exact first (equal 0 (Nat.succ_pos j))
    · rw [strncmp_wrapped m left right inside]
      refine iff_of_false List.not_mem_nil ?_
      rintro ⟨j, _, later, _⟩
      exact inside later.first

end

/-- The result is 1 when every pair of bytes read is equal. -/
theorem result_reads (m : Mem) (s1 s2 n : Nat) : (strncmp m s1 s2 n).result = 1 ↔
    ∀ x y, (x, y) ∈ (strncmp m s1 s2 n).reads → m x = m y := by
  induction n generalizing s1 s2 with
  | zero => exact iff_of_true rfl fun x y none => absurd none List.not_mem_nil
  | succ n ih =>
    rw [strncmp]
    split
    · exact iff_of_true rfl fun x y none => absurd none List.not_mem_nil
    · split
      · next differ =>
        refine iff_of_false Nat.zero_ne_one fun equal => ?_
        exact differ (equal s1 s2 (List.mem_singleton_self _))
      · next same =>
        refine (ih _ _).trans ⟨fun rest x y read => ?_, fun all x y later => ?_⟩
        · rcases List.mem_cons.mp read with here | later
          · cases here
            exact not_not.mp same
          · exact rest x y later
        · exact all x y (List.mem_cons_of_mem _ later)

/-! ## Two strings -/

section
variable {m : Mem} (a b : Str m)

theorem inSpace_of_le {j : Nat} (left : j ≤ a.len) (right : j ≤ b.len) :
    InSpace a.ptr b.ptr j := by
  have first := a.inside
  have second := b.inside
  unfold InSpace
  omega

theorem mem_reads (n x y : Nat) : (x, y) ∈ (strncmp m a.ptr b.ptr n).reads ↔
    ∃ j, j < n ∧ InSpace a.ptr b.ptr j ∧ (∀ i, i < j → a.char i = b.char i) ∧
      x = a.ptr + j ∧ y = b.ptr + j := by
  have first : 0 < a.ptr ∧ a.ptr ≤ 18446744073709551616 := ⟨a.nonnull, by have := a.inside; omega⟩
  have second : 0 < b.ptr ∧ b.ptr ≤ 18446744073709551616 := ⟨b.nonnull, by have := b.inside; omega⟩
  have reads := mem_reads_from m first second n x y
  rwa [Nat.mod_eq_of_lt (Nat.lt_of_add_right_lt a.inside),
    Nat.mod_eq_of_lt (Nat.lt_of_add_right_lt b.inside)] at reads

/-- What the code compares: the bytes at every index, up to a wrap. -/
theorem result_iff (n : Nat) : (strncmp m a.ptr b.ptr n).result = 1 ↔
    ∀ j, j < n → InSpace a.ptr b.ptr j → a.char j = b.char j := by
  rw [result_reads]
  constructor
  · intro equal j
    induction j using Nat.strong_induction_on with
    | _ j ih =>
      intro before inside
      have earlier (i : Nat) (less : i < j) : a.char i = b.char i := by
        unfold InSpace at inside
        exact ih i less (by omega) ⟨by omega, by omega⟩
      exact equal _ _ ((mem_reads a b n _ _).mpr ⟨j, before, inside, earlier, rfl, rfl⟩)
  · intro equal x y read
    obtain ⟨j, before, inside, _, rfl, rfl⟩ := (mem_reads a b n x y).mp read
    exact equal j before inside

/-- For different texts the wrap makes no difference. -/
theorem result_iff_of_differ {n : Nat} (differ : a.text ≠ b.text) :
    (strncmp m a.ptr b.ptr n).result = 1 ↔ Agree 0 a.char b.char n := by
  rw [result_iff, Terminated.agree_iff a.char_ends b.char_ends differ]
  refine ⟨fun equal j before => ?_, fun equal j before _ => equal j before⟩
  by_contra other
  refine differ ((Terminated.text_eq_iff a.char_ends b.char_ends).mpr fun i left right => ?_)
  by_cases inside : InSpace a.ptr b.ptr j
  · exact absurd (equal j before inside) other
  · have late : ¬ (j ≤ a.len ∧ j ≤ b.len) := fun short =>
      inside (inSpace_of_le a b short.1 short.2)
    exact equal i (by omega) (inSpace_of_le a b left right)

/-- An index that is read is at or before a terminator, unless the texts are equal. -/
theorem le_of_differ {j : Nat} (differ : a.text ≠ b.text)
    (equal : ∀ i, i < j → a.char i = b.char i) : j ≤ a.len ∧ j ≤ b.len := by
  by_contra late
  exact differ (Terminated.text_eq_of_past a.char_ends b.char_ends (by omega) equal)

/-- **When the result is right**: the texts differ, or what lies behind them is
equal too. -/
theorem decides_result_iff (n : Nat) :
    ((strncmp m a.ptr b.ptr n).result = 1 ↔ Agree 0 a.char b.char n) ↔
      (a.text = b.text → ∀ j, j < n → InSpace a.ptr b.ptr j → a.char j = b.char j) := by
  by_cases same : a.text = b.text
  · have agree := Terminated.agree_of_text_eq a.char_ends b.char_ends same n
    rw [← result_iff]
    simp only [same, agree, iff_true, forall_const]
  · exact iff_of_true (result_iff_of_differ a b same) fun equal => absurd equal same

/-- Equal texts are compared to their terminator, and beyond it if `n` says so. -/
theorem decides_of_same {n : Nat} (same : a.text = b.text) :
    Decides m a b n ↔ n ≤ a.len + 1 ∨ a.Last ∨ b.Last := by
  have chars := (Terminated.text_eq_iff a.char_ends b.char_ends).mp same
  have ends : a.len = b.len := Terminated.same_end a.char_ends b.char_ends chars
  have first := a.inside
  have second := b.inside
  unfold Str.Last
  constructor
  · intro decides
    by_contra beyond
    have next : (a.ptr + (a.len + 1), b.ptr + (a.len + 1)) ∈ (strncmp m a.ptr b.ptr n).reads := by
      refine (mem_reads a b n _ _).mpr ⟨a.len + 1, by omega, ⟨by omega, by omega⟩, ?_, rfl, rfl⟩
      exact fun i before => chars i (by omega) (by omega)
    have inside := decides.inside _ _ next
    omega
  · intro short
    have stops (j : Nat) (before : j < n) (inside : InSpace a.ptr b.ptr j) : j ≤ a.len := by
      unfold InSpace at inside
      omega
    constructor
    · apply (decides_result_iff a b n).mpr
      intro _ j before inside
      have := stops j before inside
      exact chars j this (by omega)
    · intro x y read
      obtain ⟨j, before, inside, _, rfl, rfl⟩ := (mem_reads a b n x y).mp read
      have := stops j before inside
      omega

theorem decides_of_differ {n : Nat} (differ : a.text ≠ b.text) : Decides m a b n := by
  refine ⟨result_iff_of_differ a b differ, fun x y read => ?_⟩
  obtain ⟨j, _, _, equal, rfl, rfl⟩ := (mem_reads a b n x y).mp read
  have := le_of_differ a b differ equal
  omega

/-- As many characters as one of the strings has, or one more: the call of
`locate_fadt` compares the four of its literal. -/
theorem decides_of_short {n : Nat} (short : n ≤ a.len + 1 ∨ n ≤ b.len + 1) :
    Decides m a b n := by
  by_cases same : a.text = b.text
  · have chars := (Terminated.text_eq_iff a.char_ends b.char_ends).mp same
    have ends := Terminated.same_end a.char_ends b.char_ends chars
    exact (decides_of_same a b same).mpr (Or.inl (by omega))
  · exact decides_of_differ a b same

/-- **The calls that decide equality**: the texts differ, or `n` ends at the
terminator, or a pointer behind a terminator is `NULL`. -/
theorem decides_iff (n : UInt32) : Decides m a b n.toNat ↔
    a.text ≠ b.text ∨ n.toNat ≤ a.len + 1 ∨ a.Last ∨ b.Last := by
  by_cases same : a.text = b.text
  · rw [decides_of_same a b same]
    simp only [same, ne_eq, not_true_eq_false, false_or]
  · exact iff_of_true (decides_of_differ a b same) (Or.inl same)

end

/-- Two empty strings, the first with an `a` behind its terminator. -/
def oneBehind : Mem := fun x => if x = 0x5001 then 0x61 else 0

/-- A terminator is an empty string. -/
def emptyAt {m : Mem} (ptr : Nat) (nonnull : 0 < ptr) (inside : ptr < 18446744073709551616)
    (nul : m ptr = 0) : Str m where
  ptr := ptr
  len := 0
  nonnull := nonnull
  inside := inside
  ends := ⟨fun j none => absurd none (Nat.not_lt_zero j), nul⟩

def firstEmpty : Str oneBehind := emptyAt 0x5000 (by decide) (by decide) rfl

def secondEmpty : Str oneBehind := emptyAt 0x6000 (by decide) (by decide) rfl

/-- They differ in their first two characters, says the code. -/
theorem empty_strings_differ : ¬ ∀ (m : Mem) (a b : Str m) (n : UInt32),
    Decides m a b n.toNat := by
  intro all
  have result := (all oneBehind firstEmpty secondEmpty 2).result
  have agree : Agree 0 firstEmpty.char secondEmpty.char 2 :=
    Or.inr ⟨0, by decide, rfl, rfl, fun j none => absurd none (Nat.not_lt_zero j)⟩
  have one := result.mpr agree
  revert one
  decide

end KessOS.StringCompare
