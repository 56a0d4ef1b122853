import KessOS.MemoryMap
import Mathlib.Algebra.BigOperators.Group.List.Basic
import Mathlib.Data.Nat.ModEq

/-!
# The size of memory

`getMemSize` walks the memory map by itself. It adds the index of an entry to
the descriptor size where the iterator multiplies by it.

* `getMemSize_eq`: what it adds up, for every number of entries;
* `getMemSize_iff`: when the result is that of the iterator.
-/

namespace KessOS

def getMemSize (m : Mem) (mMap mEntryCount mDescSize : Nat) : Nat :=
  forInt u64 mEntryCount
    (fun entry memSizeBytes =>
      let desc := Memdesc.load m ((mMap + (u64 entry + mDescSize)) % 18446744073709551616)
      (memSizeBytes + desc.nPages * 4096) % 18446744073709551616)
    intFuel 0 0

/-- The pages of the descriptors that the iterator returns. -/
def listedPages (m : Mem) (meminfo : Meminfo) : Nat :=
  ((List.range (getMmapEntries meminfo)).map fun i =>
    (Memdesc.load m (mmapIteratorHelper i meminfo)).nPages).sum

/-- The total is 4096 bytes for every page listed. With `mDescriptorSize` zero, by
which `get_mmap_entries` divides, no page is: that map counts as one without entries. -/
def Agrees (m : Mem) (meminfo : Meminfo) : Prop :=
  getMemSize m meminfo.mMap (getMmapEntries meminfo) meminfo.mDescriptorSize =
    4096 * listedPages m meminfo % 18446744073709551616

/-! ## The addresses it reads -/

/-- The address read for an entry. -/
def walked (meminfo : Meminfo) (k : Nat) : Nat :=
  (meminfo.mMap + (u64 (int32 k) + meminfo.mDescriptorSize)) % 18446744073709551616

/-- The pages that `getMemSize` adds up. -/
def walkedPages (m : Mem) (meminfo : Meminfo) : Nat :=
  ((List.range (reach (getMmapEntries meminfo))).map fun k =>
    (Memdesc.load m (walked meminfo k)).nPages).sum

/-- A 64-bit total of pages is their sum, reduced once. -/
theorem foldl_pages (f : Nat → Nat) (ks : List Nat) (total : Nat) :
    ks.foldl (fun total k => (total + f k * 4096) % 18446744073709551616)
        (total % 18446744073709551616) =
      (total + 4096 * (ks.map f).sum) % 18446744073709551616 := by
  induction ks generalizing total with
  | nil => simp
  | cons k ks ih =>
    have next : (total % 18446744073709551616 + f k * 4096) % 18446744073709551616 =
        (total + f k * 4096) % 18446744073709551616 := by omega
    rw [List.foldl_cons, next, ih, List.map_cons, List.sum_cons]
    congr 1
    omega

theorem getMmapEntries_word {meminfo : Meminfo} (word : meminfo.mSize < 18446744073709551616) :
    getMmapEntries meminfo < 18446744073709551616 :=
  Nat.lt_of_le_of_lt (Nat.div_le_self _ _) word

theorem getMemSize_eq (m : Mem) {meminfo : Meminfo}
    (word : meminfo.mSize < 18446744073709551616) :
    getMemSize m meminfo.mMap (getMmapEntries meminfo) meminfo.mDescriptorSize =
      4096 * walkedPages m meminfo % 18446744073709551616 := by
  rw [getMemSize, forInt_u64_any _ (getMmapEntries_word word)]
  have total := foldl_pages (fun k => (Memdesc.load m (walked meminfo k)).nPages)
    (List.range (reach (getMmapEntries meminfo))) 0
  rwa [Nat.zero_add] at total

/-! ## When the totals agree -/

theorem agrees_iff (m : Mem) {meminfo : Meminfo} (word : meminfo.mSize < 18446744073709551616) :
    Agrees m meminfo ↔ walkedPages m meminfo ≡ listedPages m meminfo [MOD 4503599627370496] := by
  rw [Agrees, getMemSize_eq m word, Nat.ModEq]
  omega

/-- Memory with a 1 at one address. -/
def probe (a : Nat) : Mem := fun x => if x = a then 1 else 0

/-- The lowest byte of a page count. -/
theorem nPages_mod (m : Mem) (a : Nat) : (Memdesc.load m a).nPages % 256 = (m (a + 24)).toNat := by
  have byte := (m (a + 24)).toNat_lt
  show Mem.readLE m (a + 24) 8 % 256 = _
  rw [Mem.readLE]
  omega

/-- The sum of page counts around a probe counts the visits to its descriptor. -/
theorem probe_sum (mMap : Nat) (visited : List Nat) :
    (visited.map fun a => (Memdesc.load (probe (mMap + 24)) a).nPages).sum % 256 =
      visited.count mMap % 256 := by
  induction visited with
  | nil => rfl
  | cons a rest ih =>
    have byte := nPages_mod (probe (mMap + 24)) a
    rw [List.map_cons, List.sum_cons, Nat.add_mod, ih, byte, List.count_cons]
    by_cases here : a = mMap
    · simp only [probe, here, ↓reduceIte, beq_self_eq_true]
      rw [show (1 : UInt8).toNat = 1 from rfl]
      omega
    · have apart : ¬ a + 24 = mMap + 24 := by omega
      simp only [probe, apart, here, ↓reduceIte, beq_iff_eq]
      rw [show (0 : UInt8).toNat = 0 from rfl]
      omega

section
variable {meminfo : Meminfo} (word : meminfo.mSize < 18446744073709551616)
include word

/-- `getMemSize` never looks at the first descriptor. -/
theorem walked_ne {k : Nat} (hk : k < reach (getMmapEntries meminfo)) :
    walked meminfo k ≠ meminfo.mMap := by
  have inside := reach_inside (getMmapEntries_word word) hk
  have fits : getMmapEntries meminfo * meminfo.mDescriptorSize ≤ meminfo.mSize :=
    Nat.div_mul_le_self _ _
  have stride : 0 < meminfo.mDescriptorSize := by
    by_contra zero
    have : meminfo.mDescriptorSize = 0 := by omega
    rw [getMmapEntries, this, Nat.div_zero] at inside
    omega
  -- the last offset read is at most that of the end of the map
  have last : (getMmapEntries meminfo - 1) * 1 ≤
      (getMmapEntries meminfo - 1) * meminfo.mDescriptorSize := Nat.mul_le_mul_left _ stride
  have whole : getMmapEntries meminfo * meminfo.mDescriptorSize =
      (getMmapEntries meminfo - 1) * meminfo.mDescriptorSize + meminfo.mDescriptorSize := by
    rw [← Nat.succ_mul, Nat.succ_eq_add_one, Nat.sub_add_cancel (by omega)]
  unfold walked
  omega

/-- The iterator returns the first descriptor for 0 only. -/
theorem listed_eq_iff (base : meminfo.mMap < 18446744073709551616) {i : Nat}
    (hi : i < getMmapEntries meminfo) :
    mmapIteratorHelper i meminfo = meminfo.mMap ↔ i = 0 := by
  have fits : getMmapEntries meminfo * meminfo.mDescriptorSize ≤ meminfo.mSize :=
    Nat.div_mul_le_self _ _
  have below : i * meminfo.mDescriptorSize ≤ getMmapEntries meminfo * meminfo.mDescriptorSize :=
    Nat.mul_le_mul_right _ (Nat.le_of_lt hi)
  unfold mmapIteratorHelper
  constructor
  · intro same
    have offset : i * meminfo.mDescriptorSize = 0 := by omega
    rcases Nat.mul_eq_zero.mp offset with first | zero
    · exact first
    · rw [getMmapEntries, zero, Nat.div_zero] at hi
      omega
  · rintro rfl
    omega

/-- A map with an entry and a 1 in its first page count is not added up right. -/
theorem probe_disagrees (base : meminfo.mMap < 18446744073709551616)
    (entry : 0 < getMmapEntries meminfo) :
    ¬ Agrees (probe (meminfo.mMap + 24)) meminfo := by
  rw [agrees_iff _ word]
  intro same
  have walk := probe_sum meminfo.mMap
    ((List.range (reach (getMmapEntries meminfo))).map (walked meminfo))
  have list := probe_sum meminfo.mMap
    ((List.range (getMmapEntries meminfo)).map fun i => mmapIteratorHelper i meminfo)
  have never : ((List.range (reach (getMmapEntries meminfo))).map (walked meminfo)).count
      meminfo.mMap = 0 := by
    rw [List.count_eq_zero]
    intro found
    obtain ⟨k, hk, there⟩ := List.mem_map.mp found
    exact walked_ne word (List.mem_range.mp hk) there
  have once : ((List.range (getMmapEntries meminfo)).map fun i =>
      mmapIteratorHelper i meminfo).count meminfo.mMap = 1 := by
    have first := List.count_eq_one_of_mem List.nodup_range (List.mem_range.mpr entry)
    rw [List.count_eq_countP, List.countP_map, ← first, List.count_eq_countP]
    apply List.countP_congr
    intro i hi
    have := listed_eq_iff word base (List.mem_range.mp hi)
    simp [this]
  rw [List.map_map, never] at walk
  rw [List.map_map, once] at list
  have coarse : walkedPages (probe (meminfo.mMap + 24)) meminfo ≡
      listedPages (probe (meminfo.mMap + 24)) meminfo [MOD 256] := same.of_dvd (by decide)
  rw [Nat.ModEq] at coarse
  exact absurd (walk.symm.trans (coarse.trans list)) (by decide)

end

/-- **When the total is that of the iterator**: for a given map when the two sums
agree modulo 2^52, and whatever the map says only without entries. -/
theorem getMemSize_iff {meminfo : Meminfo} (base : meminfo.mMap < 18446744073709551616)
    (word : meminfo.mSize < 18446744073709551616) :
    (∀ m, Agrees m meminfo ↔
      walkedPages m meminfo ≡ listedPages m meminfo [MOD 4503599627370496]) ∧
    ((∀ m, Agrees m meminfo) ↔ getMmapEntries meminfo = 0) := by
  constructor
  · intro m
    exact agrees_iff m word
  constructor
  · intro all
    by_contra entry
    exact probe_disagrees word base (Nat.pos_of_ne_zero entry) (all _)
  · intro none m
    have still : reach 0 = 0 := by
      unfold reach
      omega
    rw [agrees_iff m word, walkedPages, listedPages, none, still, List.range_zero, List.map_nil,
      List.map_nil, List.sum_nil]

/-- Two segments of 16 pages and one page, with 48 bytes to a descriptor. -/
def twoSegments : Mem :=
  let m := (Mem.writeLE (fun _ => 0) 0x9000 4 mmapUsableMemory).write64 0x9018 16
  (m.writeLE 0x9030 4 mmapUsableMemory).write64 0x9048 1

def twoEntries : Meminfo where
  mMap := 0x9000
  mSize := 96
  mDescriptorSize := 48

theorem getMemSize_iff_two :
    (∀ m, Agrees m twoEntries ↔
      walkedPages m twoEntries ≡ listedPages m twoEntries [MOD 4503599627370496]) ∧
    ((∀ m, Agrees m twoEntries) ↔ getMmapEntries twoEntries = 0) :=
  getMemSize_iff (by decide) (by decide)

/-- The 16 pages are missing from the total. -/
theorem twoSegments_disagree : ¬ Agrees twoSegments twoEntries := by
  rw [agrees_iff _ (by decide)]
  decide

end KessOS
