import KessOS.Elf
import Mathlib.Data.Nat.Bitwise

/-!
# The bootloader looks for the RSDP

The search goes through the firmware's configuration table with an index and
an advancing pointer at once. `findRsdp_iff` says for which tables it does what
a search for the ACPI 2.0 entry should do.
-/

namespace KessOS.Bootloader

structure EfiGuid where
  data1 : UInt32
  data2 : UInt16
  data3 : UInt16
  data4 : Vector UInt8 8
  deriving DecidableEq

structure EfiConfigurationTable where
  vendorGuid : EfiGuid
  vendorTable : Nat

def acpi20TableGuid : EfiGuid :=
  ⟨0x8868e871, 0xe4f1, 0x11d3, #v[0xbc, 0x22, 0x0, 0x80, 0xc7, 0x3c, 0x88, 0x81]⟩

/-- A GUID read as four `INT32`s. -/
def EfiGuid.words (g : EfiGuid) : Nat × Nat × Nat × Nat :=
  (g.data1.toNat, g.data2.toNat + 65536 * g.data3.toNat,
    g.data4[0].toNat + 256 * g.data4[1].toNat + 65536 * g.data4[2].toNat +
      16777216 * g.data4[3].toNat,
    g.data4[4].toNat + 256 * g.data4[5].toNat + 65536 * g.data4[6].toNat +
      16777216 * g.data4[7].toNat)

/-- The difference of two words, in 32 bits. -/
def wordSub (a b : Nat) : Nat := (a + 4294967296 - b) % 4294967296

/-- `RtCompareGuid`: the bits in which any of the differences is not zero. -/
def compareGuid (guid1 guid2 : EfiGuid) : Nat :=
  let g1 := guid1.words
  let g2 := guid2.words
  wordSub g1.1 g2.1 ||| wordSub g1.2.1 g2.2.1 ||| wordSub g1.2.2.1 g2.2.2.1 |||
    wordSub g1.2.2.2 g2.2.2.2

/-- The characters of "RSD PTR ". -/
def rsdPtr : Nat → UInt8
  | 0 => 0x52
  | 1 => 0x53
  | 2 => 0x44
  | 3 => 0x20
  | 4 => 0x50
  | 5 => 0x54
  | 6 => 0x52
  | 7 => 0x20
  | _ => 0

/-- The search: `configTable` is an entry number, and `reads` lists the entries
looked at, latest first. -/
structure Search where
  rsdp : Nat
  configTable : Nat
  reads : List Nat

def searchStep (m : Mem) (table : Nat → EfiConfigurationTable) (s : Search) (i : Nat) : Search :=
  let guid := s.configTable + i
  let s := { s with reads := guid :: s.reads }
  let s :=
    if compareGuid (table guid).vendorGuid acpi20TableGuid ≠ 0 then
      let vendorTable := (table s.configTable).vendorTable
      let s := { s with reads := s.configTable :: s.reads }
      if memcmp rsdPtr (fun j => m (vendorTable + j)) 0 8 = 0 then { s with rsdp := vendorTable }
      else s
    else s
  { s with configTable := s.configTable + 1 }

/-- The loop over `NumberOfTableEntries`. -/
def findRsdp (m : Mem) (table : Nat → EfiConfigurationTable) (n : Nat) : Search :=
  (List.range n).foldl (searchStep m table) ⟨0, 0, []⟩

/-! ## The comparisons -/

theorem wordSub_eq_zero {a b : Nat} (ha : a < 4294967296) (hb : b < 4294967296) :
    wordSub a b = 0 ↔ a = b := by
  unfold wordSub
  omega

theorem EfiGuid.words_lt (g : EfiGuid) : g.words.1 < 4294967296 ∧ g.words.2.1 < 4294967296 ∧
    g.words.2.2.1 < 4294967296 ∧ g.words.2.2.2 < 4294967296 := by
  have d1 := g.data1.toNat_lt
  have d2 := g.data2.toNat_lt
  have d3 := g.data3.toNat_lt
  have byte (i : Nat) (hi : i < 8) : g.data4[i].toNat < 256 := UInt8.toNat_lt _
  have := byte 0 (by omega)
  have := byte 1 (by omega)
  have := byte 2 (by omega)
  have := byte 3 (by omega)
  have := byte 4 (by omega)
  have := byte 5 (by omega)
  have := byte 6 (by omega)
  have := byte 7 (by omega)
  simp only [words]
  omega

/-- Four bytes of a little-endian word. -/
theorem word_inj {a b : Fin 4 → UInt8}
    (h : (a 0).toNat + 256 * (a 1).toNat + 65536 * (a 2).toNat + 16777216 * (a 3).toNat =
      (b 0).toNat + 256 * (b 1).toNat + 65536 * (b 2).toNat + 16777216 * (b 3).toNat)
    (i : Fin 4) : a i = b i := by
  have a0 := (a 0).toNat_lt
  have a1 := (a 1).toNat_lt
  have a2 := (a 2).toNat_lt
  have b0 := (b 0).toNat_lt
  have b1 := (b 1).toNat_lt
  have b2 := (b 2).toNat_lt
  apply UInt8.toNat_inj.mp
  match i with
  | 0 => omega
  | 1 => omega
  | 2 => omega
  | 3 => omega

theorem EfiGuid.words_inj {a b : EfiGuid} (h : a.words = b.words) : a = b := by
  have a2 := a.data2.toNat_lt
  have b2 := b.data2.toNat_lt
  simp only [words, Prod.mk.injEq] at h
  obtain ⟨h1, h2, h3, h4⟩ := h
  have low (i : Fin 4) : a.data4[i.val] = b.data4[i.val] :=
    word_inj (a := fun i => a.data4[i.val]) (b := fun i => b.data4[i.val]) h3 i
  have high (i : Fin 4) : a.data4[4 + i.val] = b.data4[4 + i.val] :=
    word_inj (a := fun i => a.data4[4 + i.val]) (b := fun i => b.data4[4 + i.val]) h4 i
  have data4 : a.data4 = b.data4 := by
    apply Vector.ext
    intro i hi
    by_cases half : i < 4
    · exact low ⟨i, half⟩
    · have upper := high ⟨i - 4, by omega⟩
      simpa only [show 4 + (i - 4) = i by omega] using upper
  have data2 : a.data2 = b.data2 := UInt16.toNat_inj.mp (by omega)
  have data3 : a.data3 = b.data3 := UInt16.toNat_inj.mp (by omega)
  cases a
  cases b
  simp only [EfiGuid.mk.injEq]
  exact ⟨UInt32.toNat_inj.mp h1, data2, data3, data4⟩

/-- Zero means equal. -/
theorem compareGuid_eq_zero (a b : EfiGuid) : compareGuid a b = 0 ↔ a = b := by
  obtain ⟨a1, a2, a3, a4⟩ := a.words_lt
  obtain ⟨b1, b2, b3, b4⟩ := b.words_lt
  simp only [compareGuid, Nat.or_eq_zero_iff, wordSub_eq_zero a1 b1, wordSub_eq_zero a2 b2,
    wordSub_eq_zero a3 b3, wordSub_eq_zero a4 b4]
  constructor
  · rintro ⟨⟨⟨h1, h2⟩, h3⟩, h4⟩
    exact EfiGuid.words_inj (Prod.ext h1 (Prod.ext h2 (Prod.ext h3 h4)))
  · rintro rfl
    exact ⟨⟨⟨rfl, rfl⟩, rfl⟩, rfl⟩

/-! ## What the search finds -/

/-- The vendor table starts with "RSD PTR ". -/
def StartsRsdPtr (m : Mem) (vendorTable : Nat) : Prop :=
  ∀ j, j < 8 → m (vendorTable + j) = rsdPtr j

/-- The entry of the ACPI 2.0 RSDP. -/
def IsRsdp (m : Mem) (e : EfiConfigurationTable) : Prop :=
  e.vendorGuid = acpi20TableGuid ∧ StartsRsdPtr m e.vendorTable

/-- What a search through `n` entries should do. -/
structure FindsRsdp (m : Mem) (table : Nat → EfiConfigurationTable) (n : Nat) (s : Search) :
    Prop where
  found : s.rsdp ≠ 0 ↔ ∃ i, i < n ∧ IsRsdp m (table i)
  vendor : (∃ i, i < n ∧ IsRsdp m (table i)) →
    ∃ i, i < n ∧ IsRsdp m (table i) ∧ s.rsdp = (table i).vendorTable
  inside : ∀ r ∈ s.reads, r < n

theorem memcmp_rsdPtr (m : Mem) (v : Nat) :
    memcmp rsdPtr (fun j => m (v + j)) 0 8 = 0 ↔ StartsRsdPtr m v := by
  rw [memcmp_eq_zero]
  simp only [Nat.zero_add, StartsRsdPtr, eq_comm]

section
variable {m : Mem} {table : Nat → EfiConfigurationTable}

/-- Three outcomes of a step: the GUIDs agree, they differ and the vendor table
is taken, or they differ and it is not. -/
theorem searchStep_same (s : Search) (i : Nat)
    (guid : (table (s.configTable + i)).vendorGuid = acpi20TableGuid) :
    searchStep m table s i = ⟨s.rsdp, s.configTable + 1, (s.configTable + i) :: s.reads⟩ := by
  rw [← compareGuid_eq_zero] at guid
  simp only [searchStep, guid, ne_eq, not_true_eq_false, ↓reduceIte]

theorem searchStep_taken (s : Search) (i : Nat)
    (guid : (table (s.configTable + i)).vendorGuid ≠ acpi20TableGuid)
    (starts : StartsRsdPtr m (table s.configTable).vendorTable) :
    searchStep m table s i = ⟨(table s.configTable).vendorTable, s.configTable + 1,
      s.configTable :: (s.configTable + i) :: s.reads⟩ := by
  rw [ne_eq, ← compareGuid_eq_zero] at guid
  rw [← memcmp_rsdPtr] at starts
  simp only [searchStep, guid, ne_eq, not_false_eq_true, starts, ↓reduceIte]

theorem searchStep_other (s : Search) (i : Nat)
    (guid : (table (s.configTable + i)).vendorGuid ≠ acpi20TableGuid)
    (starts : ¬ StartsRsdPtr m (table s.configTable).vendorTable) :
    searchStep m table s i = ⟨s.rsdp, s.configTable + 1,
      s.configTable :: (s.configTable + i) :: s.reads⟩ := by
  rw [ne_eq, ← compareGuid_eq_zero] at guid
  rw [← memcmp_rsdPtr] at starts
  simp only [searchStep, guid, ne_eq, not_false_eq_true, starts, ↓reduceIte]

/-- Every step moves the cursor and looks at the GUID `i` entries after it. -/
theorem searchStep_reads (s : Search) (i : Nat) :
    (searchStep m table s i).configTable = s.configTable + 1 ∧
      s.configTable + i ∈ (searchStep m table s i).reads ∧
      ∀ r ∈ s.reads, r ∈ (searchStep m table s i).reads := by
  by_cases guid : (table (s.configTable + i)).vendorGuid = acpi20TableGuid
  · rw [searchStep_same s i guid]
    exact ⟨rfl, List.mem_cons_self, fun r hr => List.mem_cons_of_mem _ hr⟩
  by_cases starts : StartsRsdPtr m (table s.configTable).vendorTable
  · rw [searchStep_taken s i guid starts]
    exact ⟨rfl, by simp, fun r hr => by simp [hr]⟩
  · rw [searchStep_other s i guid starts]
    exact ⟨rfl, by simp, fun r hr => by simp [hr]⟩

theorem findRsdp_succ (n : Nat) :
    findRsdp m table (n + 1) = searchStep m table (findRsdp m table n) n := by
  simp only [findRsdp, List.range_succ, List.foldl_append, List.foldl_cons, List.foldl_nil]

theorem search_cursor (n : Nat) : (findRsdp m table n).configTable = n := by
  induction n with
  | zero => rfl
  | succ n ih => rw [findRsdp_succ, (searchStep_reads _ n).1, ih]

/-- The GUIDs looked at are those of every second entry. -/
theorem search_reads (n i : Nat) (hi : i < n) : 2 * i ∈ (findRsdp m table n).reads := by
  induction n with
  | zero => omega
  | succ n ih =>
    obtain ⟨_, looked, kept⟩ := @searchStep_reads m table (findRsdp m table n) n
    rw [search_cursor] at looked
    rw [findRsdp_succ]
    by_cases last : i = n
    · rw [last, show 2 * n = n + n by omega]
      exact looked
    · exact kept _ (ih (by omega))

/-- With one entry both cursors agree, and the GUID test is the wrong way round. -/
theorem findRsdp_one : ((findRsdp m table 1).rsdp ≠ 0 ↔
      (table 0).vendorGuid ≠ acpi20TableGuid ∧ StartsRsdPtr m (table 0).vendorTable ∧
        (table 0).vendorTable ≠ 0) ∧ ∀ r ∈ (findRsdp m table 1).reads, r < 1 := by
  rw [findRsdp_succ]
  by_cases guid : (table 0).vendorGuid = acpi20TableGuid
  · rw [searchStep_same _ 0 guid]
    exact ⟨by simp [findRsdp, guid], by simp [findRsdp]⟩
  by_cases starts : StartsRsdPtr m (table 0).vendorTable
  · rw [searchStep_taken _ 0 guid starts]
    exact ⟨by simp [findRsdp, guid, starts], by simp [findRsdp]⟩
  · rw [searchStep_other _ 0 guid starts]
    exact ⟨by simp [findRsdp, starts], by simp [findRsdp]⟩

/-- **When the search is right.** Only tables of at most one entry are read
within bounds; a single entry must not be an RSDP, nor start like one without
the GUID, except at address 0. -/
theorem findRsdp_iff (n : Nat) : FindsRsdp m table n (findRsdp m table n) ↔
    n = 0 ∨ n = 1 ∧ (StartsRsdPtr m (table 0).vendorTable →
      (table 0).vendorGuid ≠ acpi20TableGuid ∧ (table 0).vendorTable = 0) := by
  obtain ⟨rsdp, reads⟩ := @findRsdp_one m table
  match n with
  | 0 =>
    refine iff_of_true ⟨?_, ?_, ?_⟩ (.inl rfl)
    · simp [findRsdp]
    · rintro ⟨i, hi, _⟩
      omega
    · simp [findRsdp]
  | 1 =>
    have only : (∃ i, i < 1 ∧ IsRsdp m (table i)) ↔ IsRsdp m (table 0) := by simp
    constructor
    · intro finds
      refine .inr ⟨rfl, fun starts => ?_⟩
      have found := finds.found
      rw [rsdp, only] at found
      by_cases guid : (table 0).vendorGuid = acpi20TableGuid
      · exact absurd guid (found.mpr ⟨guid, starts⟩).1
      · refine ⟨guid, by_contra fun nonzero => ?_⟩
        exact guid (found.mp ⟨guid, starts, nonzero⟩).1
    · rintro (none | ⟨_, fine⟩)
      · cases none
      have missing : ¬ IsRsdp m (table 0) := fun ⟨guid, starts⟩ => (fine starts).1 guid
      refine ⟨?_, fun some => absurd (only.mp some) missing, reads⟩
      rw [rsdp, only]
      exact iff_of_false (fun ⟨_, starts, nonzero⟩ => nonzero (fine starts).2) missing
  | n + 2 =>
    refine iff_of_false (fun finds => ?_) (by omega)
    have beyond := finds.inside _ (search_reads (n + 2) (n + 1) (by omega))
    omega

end

/-- The first page of ACPI tables starts with the signature. -/
def rsdpMem : Mem := fun a => rsdPtr (a - 0x1000)

theorem findRsdp_acpi20 : ¬ FindsRsdp rsdpMem (fun _ => ⟨acpi20TableGuid, 0x1000⟩) 1
    (findRsdp rsdpMem (fun _ => ⟨acpi20TableGuid, 0x1000⟩) 1) := by
  intro finds
  have starts : StartsRsdPtr rsdpMem 0x1000 := fun j _ => by
    rw [rsdpMem, Nat.add_sub_cancel_left]
  have found := finds.found.mpr ⟨0, Nat.one_pos, rfl, starts⟩
  exact (findRsdp_one.1.mp found).1 rfl

end KessOS.Bootloader
