import KessOS.Bytes
import Mathlib.Data.Nat.Bitwise
import Mathlib.Data.UInt

/-!
# C structs

Without a `packed` attribute a member lies at the next multiple of its own size,
and the struct ends at a multiple of its largest member's. Members are scalars
whose size is their alignment. In a packed struct they follow one another.

* `layout`, `packed`: where the members lie;
* `readLE_member`: what is read inside a member, in either.
-/

namespace KessOS.CStruct

/-- A member: its size in bytes and its value. -/
structure Field where
  size : Nat
  value : Nat

def alignUp (offset size : Nat) : Nat := (offset + size - 1) / size * size

/-- The members with their offsets, from a first free offset. -/
def layout : Nat → List Field → List (Nat × Field)
  | _, [] => []
  | offset, f :: fs => (alignUp offset f.size, f) :: layout (alignUp offset f.size + f.size) fs

def sizeof (fields : List Field) : Nat :=
  alignUp ((layout 0 fields).foldl (fun _ x => x.1 + x.2.size) 0)
    (fields.foldl (fun widest f => max widest f.size) 1)

/-- Byte `i` of an object with static storage, whose padding is zero. -/
def byte (fields : List Field) (i : Nat) : UInt8 :=
  match (layout 0 fields).find? fun x => decide (x.1 ≤ i ∧ i < x.1 + x.2.size) with
  | some (offset, f) => UInt8.ofNat (f.value / 256 ^ (i - offset))
  | none => 0

/-- A bit of a little-endian number, read from its byte. -/
theorem testBit_digit (v j : Nat) {b : Nat} (hb : b < 8) :
    (UInt8.ofNat (v / 256 ^ j)).toNat.testBit b = v.testBit (8 * j + b) := by
  have digit : (UInt8.ofNat (v / 256 ^ j)).toNat = v / 2 ^ (8 * j) % 2 ^ 8 := by
    rw [Nat.pow_mul]
    simp
  rw [digit, Nat.testBit_mod_two_pow, Nat.testBit_div_two_pow]
  simp [hb, Nat.add_comm]

/-! ## Members in memory -/

/-- The members of a packed struct, from a first free offset. -/
def packed : Nat → List Field → List (Nat × Field)
  | _, [] => []
  | offset, f :: fs => (offset, f) :: packed (offset + f.size) fs

/-- Byte `i` of members that lie at these offsets, and of zero padding between them. -/
def byteIn (members : List (Nat × Field)) (i : Nat) : UInt8 :=
  match members.find? fun x => decide (x.1 ≤ i ∧ i < x.1 + x.2.size) with
  | some (offset, f) => UInt8.ofNat (f.value / 256 ^ (i - offset))
  | none => 0

theorem byte_eq (fields : List Field) : byte fields = byteIn (layout 0 fields) := rfl

/-- Each member ends before the next one begins. -/
def Ordered (members : List (Nat × Field)) : Prop :=
  members.Pairwise fun x y => x.1 + x.2.size ≤ y.1

theorem le_packed {offset : Nat} {fields : List Field} {x : Nat × Field}
    (listed : x ∈ packed offset fields) : offset ≤ x.1 := by
  induction fields generalizing offset with
  | nil => cases listed
  | cons f fs ih =>
    rcases List.mem_cons.mp listed with rfl | later
    · exact Nat.le_refl _
    · exact Nat.le_of_add_right_le (ih later)

theorem packed_ordered (offset : Nat) (fields : List Field) : Ordered (packed offset fields) := by
  induction fields generalizing offset with
  | nil => exact List.Pairwise.nil
  | cons f fs ih => exact List.Pairwise.cons (fun x listed => le_packed listed) (ih _)

theorem le_alignUp (offset : Nat) {size : Nat} (pos : 0 < size) : offset ≤ alignUp offset size := by
  have rest := Nat.mod_lt (offset + size - 1) pos
  have whole := Nat.div_add_mod' (offset + size - 1) size
  unfold alignUp
  omega

theorem le_layout {offset : Nat} {fields : List Field} (sized : ∀ f ∈ fields, 0 < f.size)
    {x : Nat × Field} (listed : x ∈ layout offset fields) : offset ≤ x.1 := by
  induction fields generalizing offset with
  | nil => cases listed
  | cons f fs ih =>
    have up := le_alignUp offset (sized f List.mem_cons_self)
    rcases List.mem_cons.mp listed with rfl | later
    · exact up
    · have after := ih (fun g inside => sized g (List.mem_cons_of_mem f inside)) later
      omega

theorem layout_ordered (offset : Nat) {fields : List Field} (sized : ∀ f ∈ fields, 0 < f.size) :
    Ordered (layout offset fields) := by
  induction fields generalizing offset with
  | nil => exact List.Pairwise.nil
  | cons f fs ih =>
    have rest : ∀ g ∈ fs, 0 < g.size := fun g inside => sized g (List.mem_cons_of_mem f inside)
    exact List.Pairwise.cons (fun x listed => le_layout rest listed) (ih _ rest)

theorem byteIn_cons (x : Nat × Field) (rest : List (Nat × Field)) (i : Nat) :
    byteIn (x :: rest) i =
      if x.1 ≤ i ∧ i < x.1 + x.2.size then UInt8.ofNat (x.2.value / 256 ^ (i - x.1))
      else byteIn rest i := by
  by_cases inside : x.1 ≤ i ∧ i < x.1 + x.2.size
  · simp [byteIn, inside]
  · rw [if_neg inside, byteIn, byteIn, List.find?_cons_of_neg (by simpa using inside)]

/-- A byte that no member with a value reaches is zero. -/
theorem byteIn_zero {members : List (Nat × Field)} {i : Nat}
    (zero : ∀ x ∈ members, x.1 ≤ i → i < x.1 + x.2.size → x.2.value = 0) :
    byteIn members i = 0 := by
  induction members with
  | nil => rfl
  | cons x rest ih =>
    rw [byteIn_cons]
    split
    · next inside =>
      rw [zero x List.mem_cons_self inside.1 inside.2]
      simp
    · exact ih fun y listed => zero y (List.mem_cons_of_mem x listed)

/-- A byte of a member. -/
theorem byteIn_member {members : List (Nat × Field)} (ordered : Ordered members) {offset : Nat}
    {f : Field} (listed : (offset, f) ∈ members) {j : Nat} (inside : j < f.size) :
    byteIn members (offset + j) = UInt8.ofNat (f.value / 256 ^ j) := by
  induction members with
  | nil => cases listed
  | cons x rest ih =>
    obtain ⟨before, later⟩ := List.pairwise_cons.mp ordered
    rw [byteIn_cons]
    rcases List.mem_cons.mp listed with rfl | listed
    · have here : offset ≤ offset + j ∧ offset + j < offset + f.size := by omega
      rw [if_pos here, Nat.add_sub_cancel_left]
    · have past := before _ listed
      dsimp only at past
      rw [if_neg (by omega)]
      exact ih later listed

/-- **A read inside a member gives the digits of its value.** -/
theorem readLE_member {members : List (Nat × Field)} (ordered : Ordered members) {offset : Nat}
    {f : Field} (listed : (offset, f) ∈ members) {j n : Nat} (inside : j + n ≤ f.size) :
    Mem.readLE (byteIn members) (offset + j) n = f.value / 256 ^ j % 256 ^ n := by
  rw [← Mem.readLE_digits_from]
  apply Mem.readLE_congr
  intro k hk
  rw [Nat.add_assoc]
  exact byteIn_member ordered listed (by omega)

end KessOS.CStruct
