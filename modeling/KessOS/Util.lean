import KessOS.Bytes
import KessOS.CLoop

/-! The kernel's own memory routines. -/

namespace KessOS

/-- `dst[i] = 0x0` for every `int i` below the `size_t` bound. -/
def memzero (m : Mem) (dest n : Nat) : Mem :=
  forInt u64 n (fun i m => m.write8 (byteAt dest i) 0) intFuel 0 m

theorem byteAt_small {a i : Nat} (h : a + i < 18446744073709551616) : byteAt a i = a + i := by
  unfold byteAt
  rw [← Nat.cast_add, u64_small h]

/-- As long as the counter does not wrap, exactly the `n` bytes are cleared. -/
theorem memzero_eq_fill (m : Mem) {dest n : Nat} (hn : n ≤ 2147483648)
    (fits : dest + n ≤ 18446744073709551616) : memzero m dest n = m.fill dest n 0 := by
  unfold memzero
  rw [forInt_u64 _ hn]
  clear hn
  induction n with
  | zero => simp [Mem.fill]
  | succ n ih =>
    rw [List.range_succ, List.foldl_append, ih (by omega), List.foldl_cons, List.foldl_nil,
      byteAt_small (by omega)]
    exact Mem.blit_succ m dest n fun _ => 0

/-- `strncmp` of this kernel: 0 at a difference, 1 after `n` equal characters,
and 1 as soon as the pointer is `NULL`. The second string is a literal. -/
def strncmp (m : Mem) (s2 : Nat → UInt8) : Nat → Nat → Nat → Nat
  | _, _, 0 => 1
  | s1, i, n + 1 =>
    if s1 = 0 then 1
    else if m s1 ≠ s2 i then 0
    else strncmp m s2 ((s1 + 1) % 18446744073709551616) (i + 1) n

theorem strncmp_zero (m : Mem) (s2 : Nat → UInt8) (i n : Nat) : strncmp m s2 0 i n = 1 := by
  cases n <;> simp [strncmp]

/-- Away from the ends of the address space this compares `n` characters. -/
theorem strncmp_ne_zero (m : Mem) (s2 : Nat → UInt8) {s1 : Nat} (pos : 0 < s1) (i n : Nat)
    (fits : s1 + n < 18446744073709551616) :
    strncmp m s2 s1 i n ≠ 0 ↔ ∀ j, j < n → m (s1 + j) = s2 (i + j) := by
  induction n generalizing s1 i with
  | zero => simp [strncmp]
  | succ n ih =>
    rw [strncmp, if_neg (by omega), span_succ]
    by_cases here : m s1 = s2 i
    · rw [if_neg (not_not_intro here), Nat.mod_eq_of_lt (by omega), ih (by omega) _ (by omega)]
      simp only [here, true_and]
    · rw [if_pos here]
      exact iff_of_false (fun zero => zero rfl) fun all => here all.1

end KessOS
