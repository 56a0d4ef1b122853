import KessOS.Util

/-!
# The ACPI tables

`acpi_init` goes from the RSDP to the RSDT to the FADT. Its three tests halt
the system, but the first never runs: it names `rsdt_valid` without calling it.
`acpiInit_validated_iff` says when the result is a validated table all the same.
-/

namespace KessOS.Acpi

/-- The static variables of `acpi.c`; a pointer is its address. -/
structure Tables where
  rsdt : Nat
  rsdtEntries : Nat
  fadt : Nat
  deriving DecidableEq, Repr

/-- `sizeof(acpi_header_t)`, and the offsets of `length` and `rsdtaddr`. -/
def headerSize : Nat := 36
def lengthOffset : Nat := 4
def rsdtaddrOffset : Nat := 16

def tableLength (m : Mem) (table : Nat) : Nat := m.read32 (table + lengthOffset)

/-- The sum both checksum functions compute, over an `int` index. -/
def checksum (m : Mem) (table : Nat) : UInt8 :=
  forInt u32 (tableLength m table) (fun i sum => sum + m (byteAt table i)) intFuel 0 0

def rsdtValid (m : Mem) (a : Tables) : Bool := (checksum m a.rsdt).toNat % 0x100 == 0

def isFadtValid (m : Mem) (a : Tables) : Bool := (checksum m a.fadt).toNat % 0x100 == 0

/-- `rsdt->tables[i]`. -/
def table (m : Mem) (rsdt : Nat) (i : Int) : Nat := m.read32 (u64 (rsdt + headerSize + 4 * i))

/-- The characters of "FACP". -/
def facp : Nat → UInt8
  | 0 => 0x46
  | 1 => 0x41
  | 2 => 0x43
  | 3 => 0x50
  | _ => 0

/-- The FADT, if `locate_fadt` finds one. -/
def locateFadt (m : Mem) (a : Tables) : Option Nat :=
  (findInt u32 a.rsdtEntries (fun i => strncmp m facp (table m a.rsdt i) 0 4 != 0) intFuel 0).map
    (table m a.rsdt)

/-- `!(rsdt_valid)`: the test is of the function's address, which is not `NULL`. -/
def rsdtInvalid : Bool := false

/-- The unsigned difference wraps before it is divided and truncated. -/
def countEntries (length : Nat) : Nat :=
  (length + 18446744073709551616 - headerSize) % 18446744073709551616 / 4 % 4294967296

/-- `rsdp_struct->rsdtaddr`. -/
def rsdtOf (m : Mem) (rsdp : Nat) : Nat :=
  m.read32 ((rsdp + rsdtaddrOffset) % 18446744073709551616)

/-- `.error` is a halt, with what was logged before it. -/
def acpiInit (m : Mem) (rsdp : Nat) : Except String Tables :=
  let rsdt := rsdtOf m rsdp
  if rsdtInvalid then
    .error "RSDT checksum invalid, please contact me at [HSC] Spurious#0070 on Discord (System Halted Until Reboot).\n"
  else
    let a : Tables := ⟨rsdt, countEntries (tableLength m rsdt), 0⟩
    match locateFadt m a with
    | none => .error "FADT not found (System Halted Until Reboot).\n"
    | some fadt =>
      let a := { a with fadt := fadt }
      if isFadtValid m a then .ok a
      else
        .error "FADT checksum invalid, please contact me at [HSC] Spurious#0070 on Discord (System Halted Until Reboot).\n"

/-! ## What a validated table is -/

/-- The sum of the first `n` bytes of a table. -/
def byteSum (m : Mem) (table n : Nat) : UInt8 :=
  (List.range n).foldl (fun sum i => sum + m (table + i)) 0

def SumsToZero (m : Mem) (table : Nat) : Prop := byteSum m table (tableLength m table) = 0

def IsFacp (m : Mem) (table : Nat) : Prop := ∀ j, j < 4 → m (table + j) = facp j

/-- The entries that lie inside the table. -/
def entries (m : Mem) (rsdt : Nat) : Nat := (tableLength m rsdt - headerSize) / 4

structure Validated (m : Mem) (rsdp : Nat) (a : Tables) : Prop where
  nonnull : rsdp ≠ 0
  rsdtSum : SumsToZero m (rsdtOf m rsdp)
  firstFadt : ∃ x : Nat, x < entries m (rsdtOf m rsdp) ∧ IsFacp m (table m (rsdtOf m rsdp) x) ∧
    (∀ y : Nat, y < x → ¬ IsFacp m (table m (rsdtOf m rsdp) y)) ∧
    SumsToZero m (table m (rsdtOf m rsdp) x) ∧ a.fadt = table m (rsdtOf m rsdp) x

/-! ## What the code checks -/

/-- The scan stops at an entry whose table is `NULL` or a FACP. -/
def Stops (m : Mem) (table : Nat) : Prop := table = 0 ∨ IsFacp m table

/-- Entry `x` is the first the scan stops at. -/
structure FirstStop (m : Mem) (rsdt x : Nat) : Prop where
  counted : x < countEntries (tableLength m rsdt)
  stops : Stops m (table m rsdt (int32 x))
  first : ∀ y, y < x → ¬ Stops m (table m rsdt (int32 y))

theorem table_lt (m : Mem) (rsdt : Nat) (i : Int) : table m rsdt i < 4294967296 :=
  Mem.readLE_lt m _ 4

theorem strncmp_stops (m : Mem) {t : Nat} (small : t < 4294967296) :
    (strncmp m facp t 0 4 != 0) = true ↔ Stops m t := by
  rcases Nat.eq_zero_or_pos t with rfl | pos
  · simp [strncmp_zero, Stops]
  · rw [bne_iff_ne, strncmp_ne_zero m facp pos 0 4 (by omega)]
    simp only [Nat.zero_add, Stops, IsFacp, Nat.ne_of_gt pos, false_or]

theorem countEntries_lt (n : Nat) : countEntries n < 4294967296 := Nat.mod_lt _ (by decide)

theorem stops_unique {m : Mem} {rsdt x y : Nat} (hx : FirstStop m rsdt x)
    (hy : FirstStop m rsdt y) : x = y := by
  rcases Nat.lt_trichotomy x y with less | same | more
  · exact absurd hx.stops (hy.first x less)
  · exact same
  · exact absurd hy.stops (hx.first y more)

theorem locateFadt_some {m : Mem} {a : Tables} {fadt : Nat}
    (count : a.rsdtEntries = countEntries (tableLength m a.rsdt)) :
    locateFadt m a = some fadt ↔
      ∃ x, FirstStop m a.rsdt x ∧ fadt = table m a.rsdt (int32 x) := by
  have stop (i : Int) := strncmp_stops m (table_lt m a.rsdt i)
  have pass (i : Int) : (strncmp m facp (table m a.rsdt i) 0 4 != 0) = false ↔
      ¬ Stops m (table m a.rsdt i) := by
    rw [← stop i, Bool.not_eq_true]
  rw [locateFadt, Option.map_eq_some_iff, count]
  constructor
  · rintro ⟨i, found, rfl⟩
    obtain ⟨x, hx, hit, before, rfl⟩ := (findInt_u32 _ (countEntries_lt _) i).mp found
    exact ⟨x, ⟨hx, (stop _).mp hit, fun y hy => (pass _).mp (before y hy)⟩, rfl⟩
  · rintro ⟨x, h, rfl⟩
    refine ⟨int32 x, (findInt_u32 _ (countEntries_lt _) _).mpr ?_, rfl⟩
    exact ⟨x, h.counted, (stop _).mpr h.stops, fun y hy => (pass _).mpr (h.first y hy), rfl⟩

theorem isFadtValid_iff (m : Mem) (a : Tables) :
    isFadtValid m a = true ↔ checksum m a.fadt = 0 := by
  have small := (checksum m a.fadt).toNat_lt
  rw [isFadtValid, beq_iff_eq, Nat.mod_eq_of_lt (by omega), ← UInt8.toNat_inj, UInt8.toNat_zero]

/-- What `acpi_init` returns, when it does. -/
theorem acpiInit_ok {m : Mem} {rsdp : Nat} {a : Tables} : acpiInit m rsdp = .ok a ↔
    ∃ x, FirstStop m (rsdtOf m rsdp) x ∧ checksum m (table m (rsdtOf m rsdp) (int32 x)) = 0 ∧
      a = ⟨rsdtOf m rsdp, countEntries (tableLength m (rsdtOf m rsdp)),
        table m (rsdtOf m rsdp) (int32 x)⟩ := by
  have scan (fadt : Nat) :
      locateFadt m ⟨rsdtOf m rsdp, countEntries (tableLength m (rsdtOf m rsdp)), 0⟩ = some fadt ↔
        ∃ x, FirstStop m (rsdtOf m rsdp) x ∧ fadt = table m (rsdtOf m rsdp) (int32 x) :=
    locateFadt_some rfl
  simp only [acpiInit, rsdtInvalid, Bool.false_eq_true, ↓reduceIte]
  cases found : locateFadt m ⟨rsdtOf m rsdp, countEntries (tableLength m (rsdtOf m rsdp)), 0⟩ with
  | none =>
    constructor
    · intro halt
      cases halt
    · rintro ⟨x, stop, _⟩
      rw [(scan _).mpr ⟨x, stop, rfl⟩] at found
      cases found
  | some fadt =>
    obtain ⟨x, stop, rfl⟩ := (scan fadt).mp found
    dsimp only
    split
    · next valid =>
      rw [isFadtValid_iff] at valid
      constructor
      · rintro ⟨⟩
        exact ⟨x, stop, valid, rfl⟩
      · rintro ⟨y, stop', _, rfl⟩
        rw [stops_unique stop stop']
    · next invalid =>
      rw [isFadtValid_iff] at invalid
      constructor
      · intro halt
        cases halt
      · rintro ⟨y, stop', valid, _⟩
        rw [stops_unique stop' stop] at valid
        exact absurd valid invalid

/-- The code computes the number of entries of a table no shorter than its header. -/
theorem countEntries_eq {m : Mem} {rsdt : Nat} (long : headerSize ≤ tableLength m rsdt) :
    countEntries (tableLength m rsdt) = entries m rsdt := by
  have small : tableLength m rsdt < 4294967296 := Mem.readLE_lt m _ 4
  simp only [countEntries, entries, headerSize] at *
  omega

theorem entries_lt (m : Mem) (rsdt : Nat) : entries m rsdt < 2147483648 := by
  have small : tableLength m rsdt < 4294967296 := Mem.readLE_lt m _ 4
  simp only [entries, headerSize]
  omega

/-- Up to 2^31 bytes the counter does not wrap. -/
theorem checksum_eq {m : Mem} {t : Nat} (small : t < 4294967296)
    (short : tableLength m t ≤ 2147483648) : checksum m t = byteSum m t (tableLength m t) := by
  have loop := forInt_u32 (fun i (sum : UInt8) => sum + m (byteAt t i))
    (show tableLength m t < 4294967296 by omega) 0 (x := 0)
  rw [checksum, show (0 : Int) = int32 0 from rfl, loop, byteSum]
  split
  · apply List.foldl_ext _ _ _
    intro sum i hi
    have below := List.mem_range.mp hi
    rw [Nat.zero_add, int32_small (by omega), byteAt_small (by omega)]
  · next none =>
    rw [show tableLength m t = 0 by omega]
    rfl

/-- **When the result is validated.** The scan stops nowhere, or at a table
that fails its checksum, or nothing that is left unchecked is wrong. -/
theorem acpiInit_validated_iff (m : Mem) (rsdp : Nat) :
    (∀ a, acpiInit m rsdp = .ok a → Validated m rsdp a) ↔
      ∀ x t, FirstStop m (rsdtOf m rsdp) x → t = table m (rsdtOf m rsdp) (int32 x) →
        checksum m t = 0 →
        rsdp ≠ 0 ∧ SumsToZero m (rsdtOf m rsdp) ∧ headerSize ≤ tableLength m (rsdtOf m rsdp) ∧
          (t = 0 → IsFacp m 0) ∧ (2147483648 < tableLength m t → SumsToZero m t) := by
  constructor
  · rintro ok x t stop rfl sum
    obtain ⟨nonnull, rsdtSum, y, hy, facp, first, fadtSum, same⟩ :=
      ok _ (acpiInit_ok.mpr ⟨x, stop, sum, rfl⟩)
    have long : headerSize ≤ tableLength m (rsdtOf m rsdp) := by
      simp only [entries] at hy
      omega
    dsimp only at same
    refine ⟨nonnull, rsdtSum, long, fun zero => ?_, fun _ => same ▸ fadtSum⟩
    rw [← zero, same]
    exact facp
  · intro checked a ok
    obtain ⟨x, stop, sum, rfl⟩ := acpiInit_ok.mp ok
    obtain ⟨nonnull, rsdtSum, long, notNull, exact_sum⟩ := checked x _ stop rfl sum
    have inside := stop.counted
    rw [countEntries_eq long] at inside
    have small := entries_lt m (rsdtOf m rsdp)
    have facp : IsFacp m (table m (rsdtOf m rsdp) (int32 x)) := by
      cases stop.stops with
      | inl zero =>
        rw [zero]
        exact notNull zero
      | inr facp => exact facp
    have fadtSum : SumsToZero m (table m (rsdtOf m rsdp) (int32 x)) := by
      by_cases big : 2147483648 < tableLength m (table m (rsdtOf m rsdp) (int32 x))
      · exact exact_sum big
      · rwa [SumsToZero, ← checksum_eq (table_lt _ _ _) (by omega)]
    rw [int32_small (by omega)] at facp fadtSum
    refine ⟨nonnull, rsdtSum, x, inside, facp, fun y hy found => ?_, fadtSum, ?_⟩
    · refine stop.first y hy (Or.inr ?_)
      rwa [int32_small (by omega)]
    · rw [int32_small (by omega)]

/-- Without an RSDP and with memory full of zeros nothing halts. -/
theorem acpiInit_null : acpiInit (fun _ => 0) 0 = .ok ⟨0, 4294967287, 0⟩ ∧
    ¬ Validated (fun _ => 0) 0 ⟨0, 4294967287, 0⟩ := by
  refine ⟨acpiInit_ok.mpr ⟨0, ⟨by decide, Or.inl (by decide), fun y hy => by omega⟩, ?_, ?_⟩,
    fun ok => ok.nonnull rfl⟩
  · decide
  · decide

end KessOS.Acpi
