import Mathlib.Data.UInt
import Mathlib.Tactic.Ring

/-!
# Byte-addressed memory

Little-endian numbers in a memory of bytes, over any memory and any width.
Every write is a `blit` of a span, so one pair of lemmas, inside the span and
outside it, serves number stores, fills and copies alike.
-/

namespace KessOS

/-- A memory image. An object lies at consecutive addresses; where a program
computes an address with wrap-around, the program's model does the reduction. -/
abbrev Mem := Nat → UInt8

/-- Two spans are equal when they are at their first place and behind it. -/
theorem span_succ {α : Type} (f g : Nat → α) (a b n : Nat) :
    (∀ i, i < n + 1 → f (a + i) = g (b + i)) ↔
      f a = g b ∧ ∀ i, i < n → f (a + 1 + i) = g (b + 1 + i) := by
  have shift (x i : Nat) : x + (i + 1) = x + 1 + i := by omega
  rw [Nat.forall_lt_succ_left]
  refine and_congr_right fun _ => forall_congr' fun i => ?_
  rw [shift a, shift b]

namespace Mem

/-- The `n` bytes from `a` as a number, least significant byte first. -/
def readLE (m : Mem) : Nat → Nat → Nat
  | _, 0 => 0
  | a, n + 1 => (m a).toNat + 256 * readLE m (a + 1) n

/-- Replace the `n` bytes from `a`; byte `i` of the span becomes `f i`. -/
def blit (m : Mem) (a n : Nat) (f : Nat → UInt8) : Mem :=
  fun x => if a ≤ x ∧ x < a + n then f (x - a) else m x

def writeLE (m : Mem) (a n v : Nat) : Mem :=
  m.blit a n fun i => UInt8.ofNat (v / 256 ^ i)

def fill (m : Mem) (a n : Nat) (b : UInt8) : Mem :=
  m.blit a n fun _ => b

abbrev write8 (m : Mem) (a : Nat) (b : UInt8) : Mem := m.blit a 1 fun _ => b
abbrev read16 (m : Mem) (a : Nat) : Nat := m.readLE a 2
abbrev read32 (m : Mem) (a : Nat) : Nat := m.readLE a 4
abbrev read64 (m : Mem) (a : Nat) : Nat := m.readLE a 8
abbrev write64 (m : Mem) (a v : Nat) : Mem := m.writeLE a 8 v

theorem blit_inside (m : Mem) {a n x : Nat} (f : Nat → UInt8) (h : a ≤ x ∧ x < a + n) :
    m.blit a n f x = f (x - a) := by simp [blit, h]

theorem blit_outside (m : Mem) {a n x : Nat} (f : Nat → UInt8) (h : x < a ∨ a + n ≤ x) :
    m.blit a n f x = m x := by
  have : ¬ (a ≤ x ∧ x < a + n) := by omega
  simp [blit, this]

theorem write8_self (m : Mem) (a : Nat) (b : UInt8) : m.write8 a b a = b :=
  blit_inside m _ (by omega)

theorem write8_other (m : Mem) {a x : Nat} (b : UInt8) (h : x ≠ a) : m.write8 a b x = m x :=
  blit_outside m _ (by omega)

@[simp] theorem blit_zero (m : Mem) (a : Nat) (f : Nat → UInt8) : m.blit a 0 f = m := by
  funext x
  exact blit_outside m f (by omega)

theorem blit_congr (m : Mem) (a : Nat) {n : Nat} {f g : Nat → UInt8}
    (h : ∀ i, i < n → f i = g i) : m.blit a n f = m.blit a n g := by
  funext x
  by_cases inside : a ≤ x ∧ x < a + n
  · rw [blit_inside _ _ inside, blit_inside _ _ inside, h _ (by omega)]
  · rw [blit_outside _ _ (by omega), blit_outside _ _ (by omega)]

/-- A span that goes on where another ended. -/
theorem blit_append (m : Mem) (a n k : Nat) (f : Nat → UInt8) :
    (m.blit a n f).blit (a + n) k (fun i => f (n + i)) = m.blit a (n + k) f := by
  funext x
  by_cases later : a + n ≤ x ∧ x < a + n + k
  · rw [blit_inside _ _ later, blit_inside _ _ (by omega)]
    congr 1
    omega
  · rw [blit_outside _ _ (by omega)]
    by_cases first : a ≤ x ∧ x < a + n
    · rw [blit_inside _ _ first, blit_inside _ _ (by omega)]
    · rw [blit_outside _ _ (by omega), blit_outside _ _ (by omega)]

/-- Writing one more byte at the end of a span extends the span. -/
theorem blit_succ (m : Mem) (a n : Nat) (f : Nat → UInt8) :
    (m.blit a n f).blit (a + n) 1 (fun _ => f n) = m.blit a (n + 1) f := by
  rw [← blit_append]
  apply blit_congr
  intro i hi
  rw [Nat.lt_one_iff.mp hi, Nat.add_zero]

theorem readLE_congr {m m' : Mem} {a a' n : Nat}
    (h : ∀ i, i < n → m (a + i) = m' (a' + i)) : m.readLE a n = m'.readLE a' n := by
  induction n generalizing a a' with
  | zero => rfl
  | succ n ih =>
    obtain ⟨first, rest⟩ := (span_succ m m' a a' n).mp h
    rw [readLE, readLE, first, ih rest]

theorem readLE_lt (m : Mem) (a n : Nat) : m.readLE a n < 256 ^ n := by
  induction n generalizing a with
  | zero => simp [readLE]
  | succ n ih =>
    have := (m a).toNat_lt
    have := ih (a + 1)
    simp only [readLE, Nat.pow_succ]
    omega

theorem readLE_eq_zero {m : Mem} {a n : Nat} (h : ∀ i, i < n → m (a + i) = 0) :
    m.readLE a n = 0 := by
  induction n generalizing a with
  | zero => rfl
  | succ n ih =>
    obtain ⟨first, rest⟩ := (span_succ m (fun _ => 0) a a n).mp h
    rw [readLE, first, ih rest]
    rfl

/-- Digits of a number from its `k`-th on. -/
theorem readLE_digits_from (v k n : Nat) :
    readLE (fun i => UInt8.ofNat (v / 256 ^ i)) k n = v / 256 ^ k % 256 ^ n := by
  induction n generalizing k with
  | zero => simp [readLE, Nat.mod_one]
  | succ n ih =>
    rw [readLE, ih (k + 1)]
    have digit : (UInt8.ofNat (v / 256 ^ k)).toNat = v / 256 ^ k % 256 := by simp
    have next : v / 256 ^ (k + 1) = v / 256 ^ k / 256 := by
      rw [Nat.pow_succ, Nat.div_div_eq_div_mul]
    rw [digit, next, Nat.pow_succ, Nat.mul_comm (256 ^ n) 256, Nat.mod_mul]

theorem readLE_digits (v n : Nat) :
    readLE (fun i => UInt8.ofNat (v / 256 ^ i)) 0 n = v % 256 ^ n := by
  simpa using readLE_digits_from v 0 n

/-- A number is its lower bytes and its upper ones. -/
theorem readLE_append (m : Mem) (a n k : Nat) :
    m.readLE a (n + k) = m.readLE a n + 256 ^ n * m.readLE (a + n) k := by
  induction n generalizing a with
  | zero => simp [readLE]
  | succ n ih =>
    have shift : a + 1 + n = a + (n + 1) := by omega
    rw [Nat.succ_add, readLE, ih, readLE, shift, Nat.pow_succ]
    ring

/-- A span read back from inside a blit is the blitted span. -/
theorem readLE_blit_inside (m : Mem) {a n b k : Nat} (f : Nat → UInt8)
    (h : a ≤ b ∧ b + k ≤ a + n) :
    (m.blit a n f).readLE b k = readLE f (b - a) k := by
  apply readLE_congr
  intro i hi
  rw [blit_inside _ _ (by omega)]
  congr 1
  omega

theorem readLE_blit_outside (m : Mem) {a n b k : Nat} (f : Nat → UInt8)
    (h : b + k ≤ a ∨ a + n ≤ b) : (m.blit a n f).readLE b k = m.readLE b k := by
  apply readLE_congr
  intro i hi
  exact blit_outside _ _ (by omega)

/-- A number too large for the span loses its upper digits. -/
theorem readLE_writeLE_mod (m : Mem) (a n v : Nat) :
    (m.writeLE a n v).readLE a n = v % 256 ^ n := by
  rw [writeLE, readLE_blit_inside _ _ (by omega), Nat.sub_self, readLE_digits]

theorem readLE_writeLE (m : Mem) (a n : Nat) {v : Nat} (hv : v < 256 ^ n) :
    (m.writeLE a n v).readLE a n = v := by
  rw [readLE_writeLE_mod, Nat.mod_eq_of_lt hv]

theorem writeLE_outside (m : Mem) {a n x : Nat} (v : Nat) (h : x < a ∨ a + n ≤ x) :
    m.writeLE a n v x = m x :=
  blit_outside m _ h

theorem readLE_writeLE_outside (m : Mem) {a n b k : Nat} (v : Nat) (h : b + k ≤ a ∨ a + n ≤ b) :
    (m.writeLE a n v).readLE b k = m.readLE b k :=
  readLE_blit_outside m _ h

theorem readLE_fill_zero (m : Mem) {a n b k : Nat} (h : a ≤ b ∧ b + k ≤ a + n) :
    (m.fill a n 0).readLE b k = 0 := by
  rw [fill, readLE_blit_inside _ _ h]
  exact readLE_eq_zero fun _ _ => rfl

theorem read64_write64 (m : Mem) (a : Nat) {v : Nat} (hv : v < 2 ^ 64) :
    (m.write64 a v).read64 a = v :=
  readLE_writeLE m a 8 (by omega)

theorem read64_write64_ne (m : Mem) {a b : Nat} (v : Nat) (h : b + 8 ≤ a ∨ a + 8 ≤ b) :
    (m.write64 a v).read64 b = m.read64 b :=
  readLE_writeLE_outside m v h

end Mem

end KessOS
