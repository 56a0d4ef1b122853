import Mathlib.Data.List.Range
import Mathlib.Logic.Function.Iterate

/-!
# C integers and counted loops

A kernel built without optimisation keeps an `int` counter in 32 bits, so `++`
past the largest `int` gives the smallest one. A comparison of an `int` with an
unsigned bound first converts the `int` to the bound's type.

* `forInt`: `for (int i = x; i < bound; ++i)`, with the conversion as parameter;
* `forInt_eq_foldl`: the loop is a fold over the counter values it goes through;
* `findInt`: the same loop with an early exit, and `visited`, the values it looks at;
* `forBound`: the same loop where a round may change the bound, and `forBound_rel`, a
  simulation of it by one with a bound;
* `While`: any loop, as the states its rounds start in.
-/

namespace KessOS

/-- `++i` on an `int`. -/
def incInt (i : Int) : Int := if i = 2147483647 then -2147483648 else i + 1

/-- The value of an unsigned number converted to `int`. -/
def int32 (u : Nat) : Int :=
  if u % 4294967296 < 2147483648 then (u % 4294967296 : Nat)
  else (u % 4294967296 : Nat) - 4294967296

/-- Conversion of an `int` to `unsigned int`. -/
def u32 (i : Int) : Nat := (i % 4294967296).toNat

/-- Conversion of an `int` to a 64-bit unsigned type. -/
def u64 (i : Int) : Nat := (i % 18446744073709551616).toNat

/-- The address of element `i` of an array of bytes. -/
def byteAt (base : Nat) (i : Int) : Nat := u64 (base + i)

theorem incInt_int32 (u : Nat) : incInt (int32 u) = int32 (u + 1) := by
  unfold incInt int32
  split <;> split <;> split <;> omega

theorem u32_int32 (u : Nat) : u32 (int32 u) = u % 4294967296 := by
  unfold u32 int32
  split <;> omega

theorem int32_small {u : Nat} (h : u < 2147483648) : int32 u = u := by
  unfold int32
  split <;> omega

theorem u64_small {u : Nat} (h : u < 18446744073709551616) : u64 u = u := by
  unfold u64
  omega

variable {τ : Type}

/-- The loop from counter value `i`. An `int` has 2^32 values, so `intFuel`
iterations never run out before the test fails. -/
def forInt (conv : Int → Nat) (bound : Nat) (body : Int → τ → τ) : Nat → Int → τ → τ
  | 0, _, s => s
  | fuel + 1, i, s =>
    if conv i < bound then forInt conv bound body fuel (incInt i) (body i s) else s

def intFuel : Nat := 4294967297

/-- The first counter value at which `p` holds. -/
def findInt (conv : Int → Nat) (bound : Nat) (p : Int → Bool) : Nat → Int → Option Int
  | 0, _ => none
  | fuel + 1, i =>
    if conv i < bound then
      if p i then some i else findInt conv bound p fuel (incInt i)
    else none

/-- The counter values that search looks at. -/
def visited (conv : Int → Nat) (bound : Nat) (p : Int → Bool) : Nat → Int → List Int
  | 0, _ => []
  | fuel + 1, i =>
    if conv i < bound then
      i :: if p i then [] else visited conv bound p fuel (incInt i)
    else []

theorem forInt_eq_foldl (conv : Int → Nat) (bound : Nat) (body : Int → τ → τ) (x count : Nat)
    (inside : ∀ k, k < count → conv (int32 (x + k)) < bound)
    (past : ¬ conv (int32 (x + count)) < bound) {fuel : Nat} (hf : count < fuel) (s : τ) :
    forInt conv bound body fuel (int32 x) s =
      (List.range count).foldl (fun s k => body (int32 (x + k)) s) s := by
  induction count generalizing x fuel s with
  | zero =>
    obtain ⟨fuel, rfl⟩ := Nat.exists_eq_add_one_of_ne_zero (Nat.ne_zero_of_lt hf)
    simp only [Nat.add_zero] at past
    simp [forInt, past]
  | succ count ih =>
    obtain ⟨fuel, rfl⟩ := Nat.exists_eq_add_one_of_ne_zero (Nat.ne_zero_of_lt hf)
    have first := inside 0 (by omega)
    simp only [Nat.add_zero] at first
    have shift (k : Nat) : x + 1 + k = x + (k + 1) := by omega
    rw [forInt, if_pos first, incInt_int32, ih (x + 1), List.range_succ_eq_map,
      List.foldl_cons, List.foldl_map]
    · simp only [Nat.add_zero, Nat.succ_eq_add_one, shift]
    · intro k hk
      rw [shift]
      exact inside (k + 1) (by omega)
    · rw [shift]
      exact past
    · omega

/-- The iterations against a 64-bit bound: the counter goes on past its wrap
when the bound is above what the smallest `int` converts to. -/
def reach (bound : Nat) : Nat := min bound 2147483648 + (bound - 18446744071562067968)

theorem u64_int32 {k : Nat} (h : k < 4294967296) :
    u64 (int32 k) = if k < 2147483648 then k else k + 18446744069414584320 := by
  unfold u64 int32
  split <;> split <;> omega

theorem reach_inside {bound k : Nat} (word : bound < 18446744073709551616) (h : k < reach bound) :
    u64 (int32 k) < bound := by
  unfold reach at h
  rw [u64_int32 (by omega)]
  split <;> omega

/-- **The loop against any 64-bit bound.** -/
theorem forInt_u64_any (body : Int → τ → τ) {bound : Nat}
    (word : bound < 18446744073709551616) (s : τ) :
    forInt u64 bound body intFuel 0 s =
      (List.range (reach bound)).foldl (fun s k => body (int32 k) s) s := by
  have inside : ∀ k, k < reach bound → u64 (int32 (0 + k)) < bound := by
    intro k hk
    rw [Nat.zero_add]
    exact reach_inside word hk
  have past : ¬ u64 (int32 (0 + reach bound)) < bound := by
    unfold reach
    rw [Nat.zero_add, u64_int32 (by omega)]
    split <;> omega
  have enough : reach bound < intFuel := by
    unfold reach intFuel
    omega
  have loop := forInt_eq_foldl u64 bound body 0 (reach bound) inside past enough s
  simpa only [Nat.zero_add, show int32 0 = 0 from rfl] using loop

/-- Below the smallest `int` as a 64-bit number the counter ends the loop when it wraps. -/
theorem forInt_u64_min (body : Int → τ → τ) {bound : Nat} (hb : bound ≤ 18446744071562067968)
    (s : τ) : forInt u64 bound body intFuel 0 s =
      (List.range (min bound 2147483648)).foldl (fun s (k : Nat) => body k s) s := by
  have count : reach bound = min bound 2147483648 := by
    unfold reach
    omega
  rw [forInt_u64_any body (by omega), count]
  apply List.foldl_ext
  intro s k hk
  have := List.mem_range.mp hk
  rw [int32_small (by omega)]

theorem map_getD_range {α : Type} (xs : List α) (d : α) (n : Nat) :
    (List.range (min xs.length n)).map (fun i => xs.getD i d) = xs.take n := by
  apply List.ext_getElem
  · simp [Nat.min_comm]
  · intro i h _
    have listed : i < xs.length := by
      rw [List.length_map, List.length_range] at h
      omega
    simp [List.getD_eq_getElem?_getD, List.getElem?_eq_getElem listed]

/-- A loop over an array goes through its first 2^31 elements. -/
theorem forInt_u64_getD {α : Type} (xs : List α) (d : α) (body : α → τ → τ)
    (hb : xs.length ≤ 18446744071562067968) (s : τ) :
    forInt u64 xs.length (fun i s => body (xs.getD (u64 i) d) s) intFuel 0 s =
      (xs.take 2147483648).foldl (fun s a => body a s) s := by
  rw [forInt_u64_min _ hb, ← map_getD_range xs d, List.foldl_map]
  apply List.foldl_ext
  intro s k hk
  have := List.mem_range.mp hk
  rw [u64_small (by omega)]

/-- A 64-bit bound of at most 2^31: the counter never wraps. -/
theorem forInt_u64 (body : Int → τ → τ) {bound : Nat} (hb : bound ≤ 2147483648) (s : τ) :
    forInt u64 bound body intFuel 0 s =
      (List.range bound).foldl (fun s (k : Nat) => body k s) s := by
  rw [forInt_u64_min body (by omega), Nat.min_eq_left hb]

/-- A 32-bit bound: the counter runs through `x, ..., bound - 1` as unsigned. -/
theorem forInt_u32 (body : Int → τ → τ) {x bound : Nat} (hb : bound < 4294967296) (s : τ) :
    forInt u32 bound body intFuel (int32 x) s =
      if x % 4294967296 < bound then
        (List.range (bound - x % 4294967296)).foldl (fun s k => body (int32 (x + k)) s) s
      else s := by
  split
  · next h =>
    apply forInt_eq_foldl
    · intro k hk
      rw [u32_int32]
      omega
    · rw [u32_int32]
      omega
    · unfold intFuel
      omega
  · next h =>
    have : ¬ u32 (int32 x) < bound := by rw [u32_int32]; exact h
    rw [show intFuel = 4294967296 + 1 from rfl, forInt, if_neg this]

/-- What the search finds is a value it looked at. -/
theorem findInt_eq_some {conv : Int → Nat} {bound : Nat} {p : Int → Bool} {i : Int} :
    ∀ {fuel : Nat} {x : Int}, findInt conv bound p fuel x = some i ↔
      i ∈ visited conv bound p fuel x ∧ p i = true := by
  intro fuel
  induction fuel with
  | zero => simp [findInt, visited]
  | succ fuel ih =>
    intro x
    unfold findInt visited
    by_cases inside : conv x < bound
    · rw [if_pos inside, if_pos inside]
      cases here : p x with
      | true =>
        rw [if_pos rfl, if_pos rfl, Option.some_inj, List.mem_singleton]
        constructor
        · rintro rfl
          exact ⟨rfl, here⟩
        · rintro ⟨same, _⟩
          exact same.symm
      | false =>
        rw [if_neg (by simp), if_neg (by simp), ih, List.mem_cons]
        refine and_congr_left fun accepted => ⟨Or.inr, fun listed => listed.resolve_left ?_⟩
        rintro rfl
        rw [here] at accepted
        cases accepted
    · rw [if_neg inside, if_neg inside]
      simp

theorem mem_visited_from (p : Int → Bool) {bound : Nat} (hb : bound < 4294967296) (i : Int) :
    ∀ {fuel x : Nat}, x ≤ bound → bound < x + fuel →
      (i ∈ visited u32 bound p fuel (int32 x) ↔
        ∃ z, x ≤ z ∧ z < bound ∧ (∀ y, x ≤ y → y < z → p (int32 y) = false) ∧ i = int32 z) := by
  intro fuel
  induction fuel with
  | zero => intro x hx hf; omega
  | succ fuel ih =>
    intro x hx hf
    by_cases last : x = bound
    · have past : ¬ u32 (int32 x) < bound := by rw [u32_int32]; omega
      rw [visited, if_neg past]
      refine iff_of_false List.not_mem_nil ?_
      rintro ⟨z, lo, hi, _⟩
      omega
    · have inside : u32 (int32 x) < bound := by rw [u32_int32]; omega
      rw [visited, if_pos inside, List.mem_cons]
      constructor
      · rintro (rfl | later)
        · exact ⟨x, Nat.le_refl x, by omega, fun y lo hi => by omega, rfl⟩
        · cases here : p (int32 x) with
          | true =>
            rw [here, if_pos rfl] at later
            exact absurd later List.not_mem_nil
          | false =>
            rw [here, if_neg (by simp), incInt_int32, ih (by omega) (by omega)] at later
            obtain ⟨z, lo, hi, before, e⟩ := later
            refine ⟨z, by omega, hi, fun y ly hy => ?_, e⟩
            by_cases first : y = x
            · rw [first, here]
            · exact before y (by omega) hy
      · rintro ⟨z, lo, hi, before, e⟩
        by_cases first : z = x
        · exact Or.inl (first ▸ e)
        · refine Or.inr ?_
          rw [before x (Nat.le_refl x) (by omega), if_neg (by simp), incInt_int32,
            ih (by omega) (by omega)]
          exact ⟨z, by omega, hi, fun y ly hy => before y (by omega) hy, e⟩

/-- With a 32-bit bound the search looks at the values up to the first that `p` accepts. -/
theorem mem_visited_u32 (p : Int → Bool) {bound : Nat} (hb : bound < 4294967296) (i : Int) :
    i ∈ visited u32 bound p intFuel 0 ↔
      ∃ x, x < bound ∧ (∀ y, y < x → p (int32 y) = false) ∧ i = int32 x := by
  rw [show (0 : Int) = int32 0 from rfl,
    mem_visited_from p hb i (Nat.zero_le _) (by unfold intFuel; omega)]
  simp only [Nat.zero_le, true_and, forall_const]

/-- With a 32-bit bound the loop stops at the first counter value that `p` accepts. -/
theorem findInt_u32 (p : Int → Bool) {bound : Nat} (hb : bound < 4294967296) (i : Int) :
    findInt u32 bound p intFuel 0 = some i ↔
      ∃ x, x < bound ∧ p (int32 x) = true ∧ (∀ y, y < x → p (int32 y) = false) ∧ i = int32 x := by
  rw [findInt_eq_some, mem_visited_u32 p hb]
  constructor
  · rintro ⟨⟨x, inside, before, rfl⟩, accepted⟩
    exact ⟨x, inside, accepted, before, rfl⟩
  · rintro ⟨x, inside, accepted, before, rfl⟩
    exact ⟨⟨x, inside, before, rfl⟩, accepted⟩

/-! ## Bounds that a round may change -/

/-- `for (...; i < bound; ++i)` where the bound is computed in every round. -/
def forBound (conv : Int → Nat) (bound : τ → Nat) (body : Int → τ → τ) : Nat → Int → τ → τ
  | 0, _, s => s
  | fuel + 1, i, s =>
    if conv i < bound s then forBound conv bound body fuel (incInt i) (body i s) else s

/-- What holds after a loop and never begins in a round holds before the loop. -/
theorem forInt_back {conv : Int → Nat} {bound : Nat} {body : Int → τ → τ} {G : τ → Prop}
    (back : ∀ i s, G (body i s) → G s) (fuel : Nat) {i : Int} {s : τ}
    (ends : G (forInt conv bound body fuel i s)) : G s := by
  induction fuel generalizing i s with
  | zero => exact ends
  | succ fuel ih =>
    rw [forInt] at ends
    split at ends
    · exact back i s (ih ends)
    · exact ends

/-- **Loops with the same rounds**: `R` relates their states, where what follows
leads to a state with `G`. -/
theorem forBound_rel {σ : Type} {conv : Int → Nat} {bound : σ → Nat} {n : Nat}
    {body : Int → σ → σ} {body' : Int → τ → τ} {R : σ → τ → Prop} {G : τ → Prop}
    (same : ∀ s t, G t → R s t → bound s = n) (back : ∀ i t, G (body' i t) → G t)
    (step : ∀ k s t, conv (int32 k) < n → G (body' (int32 k) t) → R s t →
      R (body (int32 k) s) (body' (int32 k) t))
    (fuel : Nat) {x : Nat} {s : σ} {t : τ} (start : R s t)
    (ends : G (forInt conv n body' fuel (int32 x) t)) :
    R (forBound conv bound body fuel (int32 x) s) (forInt conv n body' fuel (int32 x) t) := by
  induction fuel generalizing x s t with
  | zero => exact start
  | succ fuel ih =>
    rw [forBound, same s t (forInt_back back (fuel + 1) ends) start]
    rw [forInt] at ends ⊢
    split
    · next below =>
      rw [if_pos below, incInt_int32] at ends
      rw [incInt_int32]
      exact ih (step x s t below (forInt_back back fuel ends) start) ends
    · exact start

/-! ## Loops without a counter -/

structure While (σ : Type) where
  guard : σ → Bool
  step : σ → σ

namespace While
variable {σ : Type} (w : While σ)

/-- The state after `j` rounds, where the guard lets them happen. -/
def after (s : σ) (j : Nat) : σ := w.step^[j] s

/-- Round `j` starts. -/
def Enters (s : σ) (j : Nat) : Prop := ∀ i, i ≤ j → w.guard (w.after s i) = true

def Halts (s : σ) : Prop := ∃ j, w.guard (w.after s j) = false

/-- The loop with a bound on its rounds. -/
def run : Nat → σ → σ
  | 0, s => s
  | fuel + 1, s => if w.guard s then run fuel (w.step s) else s

theorem after_zero (s : σ) : w.after s 0 = s := rfl

theorem after_succ (s : σ) (j : Nat) : w.after s (j + 1) = w.step (w.after s j) :=
  Function.iterate_succ_apply' w.step j s

theorem after_step (s : σ) (j : Nat) : w.after (w.step s) j = w.after s (j + 1) :=
  (Function.iterate_succ_apply w.step j s).symm

theorem enters_iff {s : σ} {n : Nat} (go : ∀ i, i < n → w.guard (w.after s i) = true)
    (stop : w.guard (w.after s n) = false) (j : Nat) : w.Enters s j ↔ j < n := by
  constructor
  · intro enters
    by_contra late
    rw [enters n (Nat.le_of_not_lt late)] at stop
    cases stop
  · intro early i before
    exact go i (by omega)

theorem run_eq {s : σ} {n fuel : Nat} (go : ∀ i, i < n → w.guard (w.after s i) = true)
    (stop : w.guard (w.after s n) = false) (enough : n < fuel) : w.run fuel s = w.after s n := by
  induction n generalizing s fuel with
  | zero =>
    obtain ⟨fuel, rfl⟩ := Nat.exists_eq_add_one_of_ne_zero (Nat.ne_zero_of_lt enough)
    rw [after_zero] at stop
    rw [run, stop, if_neg (by simp), after_zero]
  | succ n ih =>
    obtain ⟨fuel, rfl⟩ := Nat.exists_eq_add_one_of_ne_zero (Nat.ne_zero_of_lt enough)
    have first := go 0 (by omega)
    rw [after_zero] at first
    rw [run, first, if_pos rfl, ← after_step]
    apply ih
    · intro i hi
      rw [after_step]
      exact go (i + 1) (by omega)
    · rw [after_step]
      exact stop
    · omega

end While

end KessOS
