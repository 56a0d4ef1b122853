import KessOS.Util

/-! The memory map handed over by the firmware, a byte buffer of descriptors. -/

namespace KessOS

structure Memdesc where
  type : Nat
  physAddr : Nat
  virtAddr : Nat
  nPages : Nat
  attr : Nat
  deriving DecidableEq, Repr

structure Meminfo where
  mMap : Nat
  mSize : Nat
  mDescriptorSize : Nat
  deriving DecidableEq, Repr

def mmapUsableMemory : Nat := 7

/-- The fields of the `memdesc_t` at an address, with the compiler's padding
after `type`. -/
def Memdesc.load (m : Mem) (a : Nat) : Memdesc where
  type := m.read32 a
  physAddr := m.read64 (a + 8)
  virtAddr := m.read64 (a + 16)
  nPages := m.read64 (a + 24)
  attr := m.read64 (a + 32)

/-- None for an `mDescriptorSize` of zero, where the code divides by zero. -/
def getMmapEntries (meminfo : Meminfo) : Nat := meminfo.mSize / meminfo.mDescriptorSize

def mmapIteratorHelper (i : Nat) (meminfo : Meminfo) : Nat :=
  (meminfo.mMap + i * meminfo.mDescriptorSize) % 18446744073709551616

/-- The search of `set_placement`: the running maximum starts without pages. -/
def largestSegment (m : Mem) (meminfo : Meminfo) (old : Memdesc) : Memdesc :=
  forInt u64 (getMmapEntries meminfo)
    (fun i biggestSegment =>
      let cur := Memdesc.load m (mmapIteratorHelper (u64 i) meminfo)
      if cur.nPages > biggestSegment.nPages ∧ cur.type = mmapUsableMemory then cur
      else biggestSegment)
    intFuel 0 { old with nPages := 0 }

/-- `d` is the first usable descriptor of the greatest, non-zero, page count
among the first `n`; `i` is its index. -/
structure LargestUsable (m : Mem) (meminfo : Meminfo) (n i : Nat) (d : Memdesc) : Prop where
  listed : i < n
  loaded : Memdesc.load m (mmapIteratorHelper i meminfo) = d
  usable : d.type = mmapUsableMemory
  nonempty : 0 < d.nPages
  first : ∀ j, j < i → (Memdesc.load m (mmapIteratorHelper j meminfo)).type = mmapUsableMemory →
    (Memdesc.load m (mmapIteratorHelper j meminfo)).nPages < d.nPages
  greatest : ∀ j, j < n → (Memdesc.load m (mmapIteratorHelper j meminfo)).type = mmapUsableMemory →
    (Memdesc.load m (mmapIteratorHelper j meminfo)).nPages ≤ d.nPages

/-- One iteration of the search. -/
def larger (m : Mem) (meminfo : Meminfo) (biggestSegment : Memdesc) (i : Nat) : Memdesc :=
  let cur := Memdesc.load m (mmapIteratorHelper i meminfo)
  if cur.nPages > biggestSegment.nPages ∧ cur.type = mmapUsableMemory then cur
  else biggestSegment

/-- The `int` counter of the search reaches the first 2^31 descriptors. -/
theorem largestSegment_min (m : Mem) {meminfo : Meminfo} (old : Memdesc)
    (few : getMmapEntries meminfo ≤ 18446744071562067968) :
    largestSegment m meminfo old =
      (List.range (min (getMmapEntries meminfo) 2147483648)).foldl (larger m meminfo)
        { old with nPages := 0 } := by
  rw [largestSegment, forInt_u64_min _ few]
  apply List.foldl_ext _ _ _
  intro d i hi
  have := List.mem_range.mp hi
  rw [u64_small (by omega), larger]

theorem largestSegment_eq (m : Mem) {meminfo : Meminfo} (old : Memdesc)
    (few : getMmapEntries meminfo ≤ 2147483648) :
    largestSegment m meminfo old =
      (List.range (getMmapEntries meminfo)).foldl (larger m meminfo) { old with nPages := 0 } := by
  rw [largestSegment_min m old (by omega), Nat.min_eq_left few]

/-- The running maximum after `n` descriptors. -/
theorem larger_run (m : Mem) (meminfo : Meminfo) (old : Memdesc) (n : Nat) :
    (∃ i, LargestUsable m meminfo n i
      ((List.range n).foldl (larger m meminfo) { old with nPages := 0 })) ∨
    ((List.range n).foldl (larger m meminfo) { old with nPages := 0 } = { old with nPages := 0 } ∧
      ∀ j, j < n → (Memdesc.load m (mmapIteratorHelper j meminfo)).type = mmapUsableMemory →
        (Memdesc.load m (mmapIteratorHelper j meminfo)).nPages = 0) := by
  induction n with
  | zero => exact Or.inr ⟨rfl, fun j hj => absurd hj (Nat.not_lt_zero j)⟩
  | succ n ih =>
    rw [List.range_succ, List.foldl_append, List.foldl_cons, List.foldl_nil]
    generalize (List.range n).foldl (larger m meminfo) { old with nPages := 0 } = best at ih ⊢
    unfold larger
    dsimp only
    split
    · next take =>
      refine Or.inl ⟨n, by omega, rfl, take.2, by omega, ?_, ?_⟩
      · intro j hj usable
        rcases ih with ⟨i, largest⟩ | ⟨_, none⟩
        · have := largest.greatest j hj usable
          omega
        · have := none j hj usable
          omega
      · intro j hj usable
        by_cases last : j = n
        · exact last ▸ Nat.le_refl _
        · rcases ih with ⟨i, largest⟩ | ⟨_, none⟩
          · have := largest.greatest j (by omega) usable
            omega
          · have := none j (by omega) usable
            omega
    · next keep =>
      rcases ih with ⟨i, largest⟩ | ⟨same, none⟩
      · refine Or.inl ⟨i, by have := largest.listed; omega, largest.loaded, largest.usable,
          largest.nonempty, largest.first, ?_⟩
        intro j hj usable
        by_cases last : j = n
        · subst last
          by_contra more
          exact keep ⟨by omega, usable⟩
        · exact largest.greatest j (by omega) usable
      · refine Or.inr ⟨same, ?_⟩
        intro j hj usable
        by_cases last : j = n
        · subst last
          by_contra more
          exact keep ⟨by rw [same]; exact Nat.pos_of_ne_zero more, usable⟩
        · exact none j (by omega) usable

/-- **The search finds a largest usable segment**, when there is one with a page. -/
theorem largestSegment_spec (m : Mem) {meminfo : Meminfo} (old : Memdesc)
    (few : getMmapEntries meminfo ≤ 2147483648) :
    (∃ i, LargestUsable m meminfo (getMmapEntries meminfo) i (largestSegment m meminfo old)) ∨
    (largestSegment m meminfo old = { old with nPages := 0 } ∧
      ∀ j, j < getMmapEntries meminfo →
        (Memdesc.load m (mmapIteratorHelper j meminfo)).type = mmapUsableMemory →
        (Memdesc.load m (mmapIteratorHelper j meminfo)).nPages = 0) := by
  rw [largestSegment_eq m old few]
  exact larger_run m meminfo old _

/-! ## A map of one segment -/

/-- Memory with one descriptor at address 0, of `pages` usable pages at `base`. -/
def oneSegment (base pages : Nat) : Mem :=
  ((Mem.writeLE (fun _ => 0) 0 4 mmapUsableMemory).write64 8 base).write64 24 pages

def oneEntry : Meminfo where
  mMap := 0
  mSize := 40
  mDescriptorSize := 40

theorem largestSegment_one {base pages : Nat} (hb : base < 2 ^ 64) (hp : pages < 2 ^ 64)
    (pos : 0 < pages) (old : Memdesc) :
    largestSegment (oneSegment base pages) oneEntry old = ⟨7, base, 0, pages, 0⟩ := by
  have type : (oneSegment base pages).read32 0 = 7 := by
    rw [oneSegment, Mem.read32, Mem.readLE_writeLE_outside _ _ (by omega),
      Mem.readLE_writeLE_outside _ _ (by omega)]
    exact Mem.readLE_writeLE _ 0 4 (by decide)
  have physAddr : (oneSegment base pages).read64 8 = base := by
    rw [oneSegment, Mem.read64_write64_ne _ _ (by omega), Mem.read64_write64 _ _ hb]
  have zero (a : Nat) (ha : a = 16 ∨ a = 32) : (oneSegment base pages).read64 a = 0 := by
    rw [oneSegment, Mem.read64_write64_ne _ _ (by omega), Mem.read64_write64_ne _ _ (by omega)]
    apply (Mem.readLE_writeLE_outside _ _ (by omega)).trans
    exact Mem.readLE_eq_zero fun _ _ => rfl
  have nPages : (oneSegment base pages).read64 24 = pages := Mem.read64_write64 _ _ hp
  have load : Memdesc.load (oneSegment base pages) (mmapIteratorHelper 0 oneEntry) =
      ⟨7, base, 0, pages, 0⟩ := by
    rw [show mmapIteratorHelper 0 oneEntry = 0 by decide, Memdesc.load, type, physAddr,
      zero 16 (Or.inl rfl), nPages, zero 32 (Or.inr rfl)]
  rw [largestSegment_eq _ _ (by decide), show getMmapEntries oneEntry = 1 by decide,
    List.range_one, List.foldl_cons, List.foldl_nil, larger, load]
  exact if_pos ⟨pos, rfl⟩

end KessOS
