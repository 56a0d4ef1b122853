import KessOS.Util

/-!
# Clearing and copying memory

`memzero` and `memcpy` count with an `int` up to a `size_t`. After 2^31 bytes
the counter is negative, and as a `size_t` it is past every smaller bound.

* `memzero_apply`, `memcpy_apply`: which bytes are set, for every size;
* `memzero_memcpy_iff`: when these are all of them.
-/

namespace KessOS

/-- `dch[i] = sch[i]` for every `int i` below the `size_t` bound. -/
def memcpy (m : Mem) (dest src n : Nat) : Mem :=
  forInt u64 n (fun i m => m.write8 (byteAt dest i) (m (byteAt src i))) intFuel 0 m

/-! ## The bytes the loops reach -/

/-- Offsets below `n` that the counter takes as an index. -/
def Reached (n j : Nat) : Prop := j < n ∧ (j < 2147483648 ∨ 18446744071562067968 ≤ j)

instance (n j : Nat) : Decidable (Reached n j) := inferInstanceAs (Decidable (_ ∧ _))

theorem reached_iff {n : Nat} (word : n < 18446744073709551616) (j : Nat) :
    (∃ k < reach n, u64 (int32 k) = j) ↔ Reached n j := by
  unfold Reached
  constructor
  · rintro ⟨k, hk, rfl⟩
    have inside := reach_inside word hk
    unfold reach at hk
    rw [u64_int32 (by omega)] at inside ⊢
    split at inside <;> split <;> omega
  · rintro ⟨below, low | high⟩
    · refine ⟨j, ?_, ?_⟩
      · unfold reach
        omega
      · rw [u64_int32 (by omega), if_pos low]
    · refine ⟨j - 18446744069414584320, ?_, ?_⟩
      · unfold reach
        omega
      · rw [u64_int32 (by omega), if_neg (by omega)]
        omega

/-- The test fails once the counter has gone through the loop. -/
theorem reach_ends {n : Nat} (word : n < 18446744073709551616) :
    reach n < intFuel ∧ ¬ u64 (int32 (reach n)) < n := by
  constructor
  · unfold reach intFuel
    omega
  · unfold reach
    rw [u64_int32 (by omega)]
    split <;> omega

theorem byteAt_u64 {base : Nat} {i : Int} (fits : base + u64 i < 18446744073709551616) :
    byteAt base i = base + u64 i := by
  unfold byteAt u64 at *
  omega

/-- Single bytes stored at some offsets of a span, each with the value for its offset. -/
theorem foldl_write8 (dest : Nat) (w : Nat → UInt8) (offsets : List Nat) (m : Mem) (x : Nat) :
    offsets.foldl (fun m j => m.write8 (dest + j) (w j)) m x =
      if dest ≤ x ∧ x - dest ∈ offsets then w (x - dest) else m x := by
  induction offsets generalizing m with
  | nil => simp
  | cons j rest ih =>
    rw [List.foldl_cons, ih]
    by_cases later : dest ≤ x ∧ x - dest ∈ rest
    · rw [if_pos later, if_pos ⟨later.1, List.mem_cons_of_mem _ later.2⟩]
    · rw [if_neg later]
      by_cases here : x = dest + j
      · subst here
        rw [Nat.add_sub_cancel_left, if_pos ⟨Nat.le_add_right _ _, List.mem_cons_self⟩]
        exact Mem.write8_self m _ _
      · have none : ¬ (dest ≤ x ∧ x - dest ∈ j :: rest) := by
          rintro ⟨above, listed⟩
          rcases List.mem_cons.mp listed with first | listed
          · omega
          · exact later ⟨above, listed⟩
        rw [if_neg none]
        exact Mem.write8_other m _ here

/-- The offsets in the order of the loop. -/
def offsets (n : Nat) : List Nat := (List.range (reach n)).map fun k => u64 (int32 k)

theorem mem_offsets {n : Nat} (word : n < 18446744073709551616) (j : Nat) :
    j ∈ offsets n ↔ Reached n j := by
  rw [offsets, List.mem_map, ← reached_iff word]
  simp only [List.mem_range]

section
variable {dest n : Nat} (word : n < 18446744073709551616) (target : dest + n ≤ 18446744073709551616)
include word target

theorem memzero_apply (m : Mem) (x : Nat) :
    memzero m dest n x = if dest ≤ x ∧ Reached n (x - dest) then 0 else m x := by
  have bytes : memzero m dest n =
      (offsets n).foldl (fun m j => m.write8 (dest + j) 0) m := by
    rw [memzero, forInt_u64_any _ word, offsets, List.foldl_map]
    apply List.foldl_ext
    intro m k hk
    have inside := reach_inside word (List.mem_range.mp hk)
    rw [byteAt_u64 (by omega)]
  rw [bytes, foldl_write8 dest fun _ => 0]
  simp only [mem_offsets word]

variable {src : Nat} (source : src + n ≤ 18446744073709551616)
  (apart : dest + n ≤ src ∨ src + n ≤ dest)
include source apart

/-- The source stays as it was, so the copied bytes are those of the start. -/
theorem memcpy_eq (m : Mem) : memcpy m dest src n =
    (offsets n).foldl (fun m' j => m'.write8 (dest + j) (m (src + j))) m := by
  rw [memcpy, forInt_u64_any _ word, offsets, List.foldl_map]
  have run (ks : List Nat) (small : ∀ k ∈ ks, k < reach n) (m' : Mem)
      (same : ∀ j, j < n → m' (src + j) = m (src + j)) :
      ks.foldl (fun m' k => m'.write8 (byteAt dest (int32 k)) (m' (byteAt src (int32 k)))) m' =
        ks.foldl (fun m' k => m'.write8 (dest + u64 (int32 k)) (m (src + u64 (int32 k)))) m' := by
    induction ks generalizing m' with
    | nil => rfl
    | cons k ks ih =>
      have inside := reach_inside word (small k List.mem_cons_self)
      rw [List.foldl_cons, List.foldl_cons, byteAt_u64 (by omega), byteAt_u64 (by omega),
        same _ inside]
      apply ih fun k' listed => small k' (List.mem_cons_of_mem _ listed)
      intro j hj
      rw [Mem.write8_other _ _ (by omega), same j hj]
  exact run _ (fun k hk => List.mem_range.mp hk) m fun _ _ => rfl

theorem memcpy_apply (m : Mem) (x : Nat) : memcpy m dest src n x =
    if dest ≤ x ∧ Reached n (x - dest) then m (src + (x - dest)) else m x := by
  rw [memcpy_eq word target source apart, foldl_write8 dest fun j => m (src + j)]
  simp only [mem_offsets word]

end

/-! ## When that is every byte -/

/-- A span is complete when the bytes left out hold what they should already. -/
theorem blit_reached_iff (m : Mem) (dest n : Nat) (f : Nat → UInt8) :
    (∀ x, (if dest ≤ x ∧ Reached n (x - dest) then f (x - dest) else m x) = m.blit dest n f x) ↔
      ∀ j, j < n → ¬ Reached n j → m (dest + j) = f j := by
  constructor
  · intro all j hj missed
    have here := all (dest + j)
    rw [Nat.add_sub_cancel_left, if_neg fun both => missed both.2,
      Mem.blit_inside _ _ (by omega), Nat.add_sub_cancel_left] at here
    exact here
  · intro kept x
    by_cases inside : dest ≤ x ∧ x < dest + n
    · rw [Mem.blit_inside _ _ inside]
      split
      · rfl
      · next missed =>
        have byte := kept (x - dest) (by omega) fun hit => missed ⟨inside.1, hit⟩
        rwa [Nat.add_sub_cancel' inside.1] at byte
    · have outside : ¬ (dest ≤ x ∧ Reached n (x - dest)) := by
        rintro ⟨above, below, _⟩
        omega
      rw [if_neg outside, Mem.blit_outside _ _ (by omega)]

/-- Up to 2^31 bytes no offset is left out. -/
theorem all_reached_iff (n : Nat) (word : n < 18446744073709551616) :
    (∀ j, j < n → Reached n j) ↔ n ≤ 2147483648 := by
  unfold Reached
  constructor
  · intro all
    by_contra large
    have := all 2147483648 (by omega)
    omega
  · intro small j hj
    omega

/-- **When `memzero` and `memcpy` are exact**: over a given memory if the bytes the
counter does not get to are right already, and over every memory up to 2^31 bytes. -/
theorem memzero_memcpy_iff {dest src n : Nat} (word : n < 18446744073709551616)
    (target : dest + n ≤ 18446744073709551616) (source : src + n ≤ 18446744073709551616)
    (apart : dest + n ≤ src ∨ src + n ≤ dest) :
    (∃ k, k < intFuel ∧ ¬ u64 (int32 k) < n) ∧
    (∀ m, memzero m dest n = m.fill dest n 0 ↔
      ∀ j, j < n → ¬ Reached n j → m (dest + j) = 0) ∧
    (∀ m, memcpy m dest src n = m.blit dest n (fun i => m (src + i)) ↔
      ∀ j, j < n → ¬ Reached n j → m (dest + j) = m (src + j)) ∧
    ((∀ m, memzero m dest n = m.fill dest n 0) ↔ n ≤ 2147483648) ∧
    ((∀ m, memcpy m dest src n = m.blit dest n fun i => m (src + i)) ↔ n ≤ 2147483648) := by
  have zero (m : Mem) : memzero m dest n = m.fill dest n 0 ↔
      ∀ j, j < n → ¬ Reached n j → m (dest + j) = 0 := by
    rw [funext_iff]
    simp only [memzero_apply word target]
    exact blit_reached_iff m dest n fun _ => 0
  have copy (m : Mem) : memcpy m dest src n = m.blit dest n (fun i => m (src + i)) ↔
      ∀ j, j < n → ¬ Reached n j → m (dest + j) = m (src + j) := by
    rw [funext_iff]
    simp only [memcpy_apply word target source apart]
    exact blit_reached_iff m dest n fun i => m (src + i)
  constructor
  · exact ⟨_, reach_ends word⟩
  constructor
  · exact zero
  constructor
  · exact copy
  constructor
  · rw [← all_reached_iff n word]
    constructor
    · intro all j hj
      by_contra missed
      exact absurd ((zero fun _ => 1).mp (all _) j hj missed) (by decide)
    · intro every m
      exact (zero m).mpr fun j hj missed => absurd (every j hj) missed
  · rw [← all_reached_iff n word]
    constructor
    · intro all j hj
      by_contra missed
      -- ones in the source and zeros elsewhere
      have byte := (copy fun x => if src ≤ x ∧ x < src + n then 1 else 0).mp (all _) j hj missed
      rw [if_neg (by omega), if_pos (by omega)] at byte
      exact absurd byte (by decide)
    · intro every m
      exact (copy m).mpr fun j hj missed => absurd (every j hj) missed

theorem memzero_memcpy_iff_page :
    (∃ k, k < intFuel ∧ ¬ u64 (int32 k) < 4096) ∧
    (∀ m, memzero m 0x1000 4096 = m.fill 0x1000 4096 0 ↔
      ∀ j, j < 4096 → ¬ Reached 4096 j → m (0x1000 + j) = 0) ∧
    (∀ m, memcpy m 0x1000 0x2000 4096 = m.blit 0x1000 4096 (fun i => m (0x2000 + i)) ↔
      ∀ j, j < 4096 → ¬ Reached 4096 j → m (0x1000 + j) = m (0x2000 + j)) ∧
    ((∀ m, memzero m 0x1000 4096 = m.fill 0x1000 4096 0) ↔ 4096 ≤ 2147483648) ∧
    ((∀ m, memcpy m 0x1000 0x2000 4096 = m.blit 0x1000 4096 fun i => m (0x2000 + i)) ↔
      4096 ≤ 2147483648) :=
  memzero_memcpy_iff (by decide) (by decide) (by decide) (by decide)

/-- Of 2^31 + 1 bytes the last one stays. -/
theorem long_memzero_leaves_byte :
    memzero (fun _ => 1) 0x100000 2147483649 ≠ Mem.fill (fun _ => 1) 0x100000 2147483649 0 := by
  intro exact_size
  have byte := congrFun exact_size (0x100000 + 2147483648)
  rw [memzero_apply (by decide) (by decide), Nat.add_sub_cancel_left, if_neg (by decide),
    Mem.fill, Mem.blit_inside _ _ (by decide)] at byte
  exact absurd byte (by decide)

end KessOS
