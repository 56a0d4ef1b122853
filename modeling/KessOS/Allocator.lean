import KessOS.MapPage

/-!
# The frame allocator

`set_placement` copies one descriptor of the memory map, `alloc_page` counts its
pages down.

* `allocated_page`, `allocated_null`: any number of calls of `alloc_page`;
* `AllocatorSpec`: the frames are those of the largest usable segment, in order;
* `allocator_iff`: the search counts descriptors with an `int`, so the largest
  segment has to be among the first 2^31 of them.
-/

namespace KessOS

/-- Descriptor `i` of the map. -/
def mmapEntry (m : Mem) (meminfo : Meminfo) (i : Nat) : Memdesc :=
  .load m (mmapIteratorHelper i meminfo)

def Memdesc.Covers (d : Memdesc) (x : Nat) : Prop :=
  d.physAddr ≤ x ∧ x < d.physAddr + 4096 * d.nPages

/-- No address belongs to two descriptors. -/
def DisjointMap (m : Mem) (meminfo : Meminfo) : Prop :=
  ∀ i j, i < getMmapEntries meminfo → j < getMmapEntries meminfo → i ≠ j →
    ∀ x, (mmapEntry m meminfo i).Covers x → ¬ (mmapEntry m meminfo j).Covers x

theorem LargestUsable.entry {m : Mem} {meminfo : Meminfo} {n i : Nat} {d : Memdesc}
    (h : LargestUsable m meminfo n i d) : mmapEntry m meminfo i = d :=
  h.loaded

theorem LargestUsable.entry_usable {m : Mem} {meminfo : Meminfo} {n i : Nat} {d : Memdesc}
    (h : LargestUsable m meminfo n i d) :
    (mmapEntry m meminfo i).type = mmapUsableMemory := by
  rw [h.entry]
  exact h.usable

theorem LargestUsable.unique {m : Mem} {meminfo : Meminfo} {n i j : Nat} {d e : Memdesc}
    (h : LargestUsable m meminfo n i d) (h' : LargestUsable m meminfo n j e) : i = j ∧ d = e := by
  have atMost := h.greatest j h'.listed h'.entry_usable
  have atLeast := h'.greatest i h.listed h.entry_usable
  rw [h'.loaded] at atMost
  rw [h.loaded] at atLeast
  have same : i = j := by
    rcases Nat.lt_trichotomy i j with before | same | after
    · have := h'.first i before h.entry_usable
      rw [h.loaded] at this
      omega
    · exact same
    · have := h.first j after h'.entry_usable
      rw [h'.loaded] at this
      omega
  exact ⟨same, by rw [← h.loaded, ← h'.loaded, same]⟩

/-! ## What the search reaches -/

/-- No usable descriptor from number 2^31 on has more pages than all before. -/
def InReach (m : Mem) (meminfo : Meminfo) : Prop :=
  ∀ j, 2147483648 ≤ j → j < getMmapEntries meminfo →
    (mmapEntry m meminfo j).type = mmapUsableMemory → 0 < (mmapEntry m meminfo j).nPages →
    ∃ i, i < 2147483648 ∧ (mmapEntry m meminfo i).type = mmapUsableMemory ∧
      (mmapEntry m meminfo j).nPages ≤ (mmapEntry m meminfo i).nPages

/-- The only frame of the map is page 0, which looks like `NULL`. -/
def OnlyPageZero (m : Mem) (meminfo : Meminfo) : Prop :=
  (∀ i, i < 2147483648 → i < getMmapEntries meminfo →
    (mmapEntry m meminfo i).type = mmapUsableMemory → (mmapEntry m meminfo i).nPages = 0) ∧
  ∃ i d, LargestUsable m meminfo (getMmapEntries meminfo) i d ∧ d.physAddr = 0 ∧ d.nPages = 1

section
variable {m : Mem} {meminfo : Meminfo}

/-- The largest segment in reach of the search is the largest of the map. -/
theorem LargestUsable.whole {i : Nat} {d : Memdesc}
    (h : LargestUsable m meminfo (min (getMmapEntries meminfo) 2147483648) i d)
    (near : InReach m meminfo) : LargestUsable m meminfo (getMmapEntries meminfo) i d := by
  have listed := h.listed
  refine ⟨by omega, h.loaded, h.usable, h.nonempty, h.first, ?_⟩
  intro j hj usable
  by_cases far : 2147483648 ≤ j
  · by_cases empty : (mmapEntry m meminfo j).nPages = 0
    · exact Nat.le_trans (Nat.le_of_eq empty) (Nat.zero_le _)
    · obtain ⟨i', near', usable', le⟩ := near j far hj usable (by omega)
      exact Nat.le_trans le (h.greatest i' (by omega) usable')
  · exact h.greatest j (by omega) usable

theorem LargestUsable.inReach {i : Nat} {d : Memdesc}
    (h : LargestUsable m meminfo (getMmapEntries meminfo) i d) (near : i < 2147483648) :
    InReach m meminfo := by
  intro j _ hj usable _
  refine ⟨i, near, h.entry_usable, ?_⟩
  rw [h.entry]
  exact h.greatest j hj usable

/-- Nothing usable anywhere is in reach too. -/
theorem inReach_of_none (h : ∀ i d, ¬ LargestUsable m meminfo (getMmapEntries meminfo) i d) :
    InReach m meminfo := by
  intro j _ hj usable pos
  rcases larger_run m meminfo ⟨0, 0, 0, 0, 0⟩ (getMmapEntries meminfo) with ⟨i, largest⟩ | ⟨_, none⟩
  · exact absurd largest (h i _)
  · have := none j hj usable
    rw [mmapEntry] at pos
    omega

end

namespace Vmm

/-! ## Calls of the allocator -/

/-- The state after `j` calls of `alloc_page`. -/
def afterAllocs (s : Vmm) : Nat → Vmm
  | 0 => s
  | j + 1 => (s.afterAllocs j).allocPage.2

/-- What the call after those returns. -/
def allocated (s : Vmm) (j : Nat) : Nat := (s.afterAllocs j).allocPage.1

theorem allocPage_some {s : Vmm} (pos : 0 < s.nPages) :
    s.allocPage.1 = s.placement ∧ s.allocPage.2.nPages = s.nPages - 1 ∧
      s.allocPage.2.placement = (s.placement + 4096) % 18446744073709551616 := by
  have left : ¬ s.nPages = 0 := by omega
  simp only [allocPage, left, ↓reduceIte, nPages, and_self]

theorem afterAllocs_within {s : Vmm} (span : s.placement + 4096 * s.nPages ≤ 18446744073709551616)
    (j : Nat) (hj : j ≤ s.nPages) : (s.afterAllocs j).nPages = s.nPages - j ∧
      (j < s.nPages → (s.afterAllocs j).placement = s.placement + 4096 * j) := by
  induction j with
  | zero => exact ⟨rfl, fun _ => rfl⟩
  | succ j ih =>
    obtain ⟨count, place⟩ := ih (by omega)
    obtain ⟨_, fewer, next⟩ := allocPage_some (s := s.afterAllocs j) (by omega)
    rw [afterAllocs, fewer, next, count, place (by omega)]
    constructor
    · omega
    · intro more
      rw [Nat.mod_eq_of_lt (by omega)]
      omega

/-- Once the segment is used up it stays so. -/
theorem allocated_after {s : Vmm} {i : Nat} (empty : (s.afterAllocs i).nPages = 0) (j : Nat) :
    (s.afterAllocs (i + j)).nPages = 0 ∧ s.allocated (i + j) = 0 := by
  have stays : (s.afterAllocs (i + j)).nPages = 0 := by
    induction j with
    | zero => exact empty
    | succ j ih =>
      rw [← Nat.add_assoc, afterAllocs, allocPage_none ih]
      exact ih
  refine ⟨stays, ?_⟩
  rw [allocated, allocPage_none stays]

theorem allocated_page {s : Vmm} (span : s.placement + 4096 * s.nPages ≤ 18446744073709551616)
    {j : Nat} (hj : j < s.nPages) : s.allocated j = s.placement + 4096 * j := by
  obtain ⟨count, place⟩ := afterAllocs_within span j (by omega)
  rw [allocated, (allocPage_some (by omega)).1, place hj]

theorem allocated_empty {s : Vmm} (empty : s.nPages = 0) (j : Nat) : s.allocated j = 0 := by
  have later := (allocated_after (i := 0) empty j).2
  rwa [Nat.zero_add] at later

theorem allocated_null {s : Vmm} (span : s.placement + 4096 * s.nPages ≤ 18446744073709551616)
    {j : Nat} (hj : s.nPages ≤ j) : s.allocated j = 0 := by
  have empty := (afterAllocs_within span s.nPages (Nat.le_refl _)).1
  have later := allocated_after (show (s.afterAllocs s.nPages).nPages = 0 by omega) (j - s.nPages)
  rw [Nat.add_sub_cancel' hj] at later
  exact later.2

/-! ## What is asked of the allocator -/

/-- Descriptor `i`, which is `d`, is handed out page by page, then `NULL`. -/
structure HandsOut (m : Mem) (meminfo : Meminfo) (s : Vmm) (i : Nat) (d : Memdesc) : Prop where
  inOrder : ∀ j, j < d.nPages → s.allocated j = d.physAddr + 4096 * j
  thenNull : ∀ j, d.nPages ≤ j → s.allocated j = 0
  once : ∀ j₁ j₂, j₁ < j₂ → j₂ < d.nPages → s.allocated j₁ ≠ s.allocated j₂
  apart : DisjointMap m meminfo → ∀ j, j < d.nPages → ∀ o, o < getMmapEntries meminfo → o ≠ i →
    ∀ x, s.allocated j ≤ x → x < s.allocated j + 4096 → ¬ (mmapEntry m meminfo o).Covers x

/-- The first usable descriptor of the greatest non-zero page count is handed
out, and nothing when there is none. -/
def AllocatorSpec (m : Mem) (meminfo : Meminfo) (s : Vmm) : Prop :=
  (∀ i d, LargestUsable m meminfo (getMmapEntries meminfo) i d → HandsOut m meminfo s i d) ∧
  ((∀ i d, ¬ LargestUsable m meminfo (getMmapEntries meminfo) i d) → ∀ j, s.allocated j = 0)

/-- The order of the pages says the rest. -/
theorem HandsOut.of_pages {m : Mem} {meminfo : Meminfo} {s : Vmm} {i : Nat} {d : Memdesc}
    (largest : LargestUsable m meminfo (getMmapEntries meminfo) i d)
    (inOrder : ∀ j, j < d.nPages → s.allocated j = d.physAddr + 4096 * j)
    (thenNull : ∀ j, d.nPages ≤ j → s.allocated j = 0) : HandsOut m meminfo s i d := by
  refine ⟨inOrder, thenNull, ?_, ?_⟩
  · intro j₁ j₂ less inside
    rw [inOrder j₁ (by omega), inOrder j₂ inside]
    omega
  · intro disjoint j hj o ho ne x lo hi
    rw [inOrder j hj] at lo hi
    have own : (mmapEntry m meminfo i).Covers x := by
      rw [largest.entry]
      constructor <;> omega
    exact disjoint i o largest.listed ho (Ne.symm ne) x own

/-! ## When the code meets it -/

/-- What `set_placement` leaves: the largest segment in reach of its search. -/
theorem setPlacement_spec (s : Vmm) {meminfo : Meminfo}
    (few : getMmapEntries meminfo ≤ 18446744071562067968) :
    (∃ i d, LargestUsable s.mem meminfo (min (getMmapEntries meminfo) 2147483648) i d ∧
      (s.setPlacement meminfo).placement = d.physAddr ∧
      (s.setPlacement meminfo).nPages = d.nPages) ∨
    ((s.setPlacement meminfo).nPages = 0 ∧
      ∀ j, j < min (getMmapEntries meminfo) 2147483648 →
        (mmapEntry s.mem meminfo j).type = mmapUsableMemory →
        (mmapEntry s.mem meminfo j).nPages = 0) := by
  have search := larger_run s.mem meminfo s.biggestSegment
    (min (getMmapEntries meminfo) 2147483648)
  rw [← largestSegment_min s.mem s.biggestSegment few] at search
  rcases search with ⟨i, largest⟩ | ⟨empty, none⟩
  · exact Or.inl ⟨i, _, largest, rfl, rfl⟩
  · refine Or.inr ⟨?_, none⟩
    simp only [nPages, setPlacement, empty]

section
variable {m : Mem} {meminfo : Meminfo} {s : Vmm}

/-- The search found `d`. -/
theorem spec_found {i : Nat} {d : Memdesc}
    (largest : LargestUsable m meminfo (min (getMmapEntries meminfo) 2147483648) i d)
    (span : d.physAddr + 4096 * d.nPages ≤ 18446744073709551616)
    (placed : s.placement = d.physAddr) (count : s.nPages = d.nPages) :
    AllocatorSpec m meminfo s ↔ InReach m meminfo := by
  rw [← placed, ← count] at span
  have nonempty := largest.nonempty
  have listed := largest.listed
  constructor
  · intro spec
    by_cases exists_largest : ∃ i d, LargestUsable m meminfo (getMmapEntries meminfo) i d
    · obtain ⟨i', d', largest'⟩ := exists_largest
      by_cases near : i' < 2147483648
      · exact largest'.inReach near
      · -- the call after the last page of `d` returns `NULL`, not the next page of `d'`
        have less := largest'.first i (by omega) largest.entry_usable
        rw [largest.loaded] at less
        have page := (spec.1 i' d' largest').inOrder d.nPages less
        rw [allocated_null span (by omega)] at page
        omega
    · exact inReach_of_none fun i d largest => exists_largest ⟨i, d, largest⟩
  · intro near
    have whole := largest.whole near
    refine ⟨fun i' d' other => ?_, fun none => absurd whole (none i d)⟩
    obtain ⟨rfl, rfl⟩ := whole.unique other
    refine .of_pages whole (fun j hj => ?_) (fun j hj => ?_)
    · rw [allocated_page span (by omega), placed]
    · exact allocated_null span (by omega)

/-- The search found nothing. -/
theorem spec_empty (none : ∀ j, j < 2147483648 → j < getMmapEntries meminfo →
      (mmapEntry m meminfo j).type = mmapUsableMemory → (mmapEntry m meminfo j).nPages = 0)
    (null : ∀ j, s.allocated j = 0) :
    AllocatorSpec m meminfo s ↔ InReach m meminfo ∨ OnlyPageZero m meminfo := by
  constructor
  · intro spec
    by_cases exists_largest : ∃ i d, LargestUsable m meminfo (getMmapEntries meminfo) i d
    · obtain ⟨i, d, largest⟩ := exists_largest
      have nonempty := largest.nonempty
      have first := (spec.1 i d largest).inOrder 0 nonempty
      rw [null] at first
      refine Or.inr ⟨none, i, d, largest, by omega, ?_⟩
      by_contra more
      have second := (spec.1 i d largest).inOrder 1 (by omega)
      rw [null] at second
      omega
    · exact Or.inl (inReach_of_none fun i d largest => exists_largest ⟨i, d, largest⟩)
  · rintro (near | ⟨_, i, d, largest, zero, one⟩)
    · refine ⟨fun i d largest => ?_, fun _ => null⟩
      have pos : 0 < (mmapEntry m meminfo i).nPages := by
        rw [largest.entry]
        exact largest.nonempty
      have listed := largest.listed
      by_cases far : 2147483648 ≤ i
      · obtain ⟨i', near', usable', le⟩ := near i far listed largest.entry_usable pos
        have empty := none i' near' (by omega) usable'
        omega
      · have empty := none i (by omega) listed largest.entry_usable
        omega
    · refine ⟨fun i' d' other => ?_, fun _ => null⟩
      obtain ⟨rfl, rfl⟩ := largest.unique other
      refine .of_pages largest (fun j hj => ?_) (fun j _ => null j)
      rw [null, zero]
      omega

end

/-- **The allocator hands out the largest segment exactly when the search reaches it.** -/
theorem allocator_iff (s : Vmm) (meminfo : Meminfo) (stride : 40 ≤ meminfo.mDescriptorSize)
    (size : meminfo.mSize < 18446744073709551616)
    (ends : ∀ i, i < getMmapEntries meminfo → (mmapEntry s.mem meminfo i).physAddr +
      4096 * (mmapEntry s.mem meminfo i).nPages ≤ 18446744073709551616) :
    AllocatorSpec s.mem meminfo (s.setPlacement meminfo) ↔
      InReach s.mem meminfo ∨ OnlyPageZero s.mem meminfo := by
  have few : getMmapEntries meminfo ≤ 18446744071562067968 := by
    have : meminfo.mSize / meminfo.mDescriptorSize ≤ meminfo.mSize / 40 :=
      Nat.div_le_div_left stride (by omega)
    unfold getMmapEntries
    omega
  rcases setPlacement_spec s few with ⟨i, d, largest, placed, count⟩ | ⟨count, none⟩
  · have listed := largest.listed
    have span := ends i (by omega)
    rw [largest.entry] at span
    rw [spec_found largest span placed count, iff_self_or]
    rintro ⟨empty, _⟩
    have gone := empty i (by omega) (by omega) largest.entry_usable
    rw [largest.entry] at gone
    exact absurd gone (Nat.ne_of_gt largest.nonempty)
  · exact spec_empty (fun j near hj => none j (by omega)) (allocated_empty count)

/-- One segment of two pages. -/
theorem allocator_iff_one :
    AllocatorSpec (oneSegment 4096 2) oneEntry
        ((initial (oneSegment 4096 2)).setPlacement oneEntry) ↔
      InReach (oneSegment 4096 2) oneEntry ∨ OnlyPageZero (oneSegment 4096 2) oneEntry := by
  apply allocator_iff (initial (oneSegment 4096 2)) oneEntry (by decide) (by decide)
  intro i hi
  obtain rfl : i = 0 := by
    have : getMmapEntries oneEntry = 1 := by decide
    omega
  decide

/-! ## A map of 2^31 + 1 descriptors -/

/-- Memory whose descriptor number 2^31 is one usable page at 4096. -/
def farSegment : Mem := fun a =>
  if a = 85899345920 then 7 else if a = 85899345929 then 16 else if a = 85899345944 then 1 else 0

def manyEntries : Meminfo where
  mMap := 0
  mSize := 85899345960
  mDescriptorSize := 40

theorem farSegment_near {j : Nat} (hj : j < 2147483648) :
    (mmapEntry farSegment manyEntries j).type = 0 := by
  have at_j : mmapIteratorHelper j manyEntries = 40 * j := by
    simp only [mmapIteratorHelper, manyEntries]
    omega
  rw [mmapEntry, at_j]
  apply Mem.readLE_eq_zero
  intro i hi
  simp only [farSegment]
  rw [if_neg (by omega), if_neg (by omega), if_neg (by omega)]

theorem farSegment_usable {j : Nat} (hj : j < 2147483648) :
    (mmapEntry farSegment manyEntries j).type ≠ mmapUsableMemory := by
  rw [farSegment_near hj]
  decide

theorem farSegment_largest : LargestUsable farSegment manyEntries (getMmapEntries manyEntries)
    2147483648 ⟨7, 4096, 0, 1, 0⟩ := by
  have loaded : Memdesc.load farSegment (mmapIteratorHelper 2147483648 manyEntries) =
      ⟨7, 4096, 0, 1, 0⟩ := by decide
  have entries : getMmapEntries manyEntries = 2147483649 := by decide
  rw [entries]
  refine ⟨by omega, loaded, rfl, by decide, ?_, ?_⟩
  · intro j hj usable
    exact absurd usable (farSegment_usable hj)
  · intro j hj usable
    by_cases last : j = 2147483648
    · subst last
      rw [loaded]
    · exact absurd usable (farSegment_usable (by omega))

/-- The page is there and is never handed out. -/
theorem farSegment_unused : ¬ AllocatorSpec farSegment manyEntries
    ((initial farSegment).setPlacement manyEntries) := by
  intro spec
  have page := (spec.1 _ _ farSegment_largest).inOrder 0 (by decide)
  rcases setPlacement_spec (initial farSegment) (show getMmapEntries manyEntries ≤ _ by decide) with
    ⟨i, d, largest, _⟩ | ⟨empty, _⟩
  · have listed := largest.listed
    apply farSegment_usable (show i < 2147483648 by omega)
    exact largest.entry_usable
  · rw [allocated_empty empty] at page
    cases page

end Vmm

end KessOS
