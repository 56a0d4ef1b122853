import Mathlib.Data.Finset.Prod
import KessOS.Mapping

/-!
# The address space init_vmm builds

Six gigabytes need one table below `pml4`, six below that and 3072 below those.
The frames of the tables lie in the same range and ask for nothing new, so
`initVmm_builds` takes 3079 of them, wherever in the range they lie.
-/

namespace KessOS.Vmm

open Demand (Ledger ServeAll Fits)

variable {k : Image}

theorem mem_initPages {a : Nat} : a ∈ initPages ↔ a % 4096 = 0 ∧ a < 6442450944 := by
  simp only [initPages, gb, List.mem_map, List.mem_range]
  constructor
  · rintro ⟨i, hi, rfl⟩
    omega
  · rintro ⟨aligned, small⟩
    exact ⟨a / 4096, by omega, by omega⟩

/-- The slots of the addresses below six gigabytes. -/
def initSlots : Finset Slot :=
  ({1} ×ˢ Finset.range 1) ∪ (({2} ×ˢ Finset.range 6) ∪ ({3} ×ˢ Finset.range 3072))

theorem mem_initSlots {x : Slot} : x ∈ initSlots ↔
    x.1 = 1 ∧ x.2 < 1 ∨ x.1 = 2 ∧ x.2 < 6 ∨ x.1 = 3 ∧ x.2 < 3072 := by
  simp only [initSlots, Finset.mem_union, Finset.mem_product, Finset.mem_singleton,
    Finset.mem_range]

theorem card_initSlots : initSlots.card = 3079 := by
  have apart {m n : Nat} {A B : Finset Nat} (ne : m ≠ n) :
      Disjoint (({m} : Finset Nat) ×ˢ A) ({n} ×ˢ B) :=
    Finset.disjoint_product.mpr (Or.inl (Finset.disjoint_singleton.mpr ne))
  rw [initSlots, Finset.card_union_of_disjoint, Finset.card_union_of_disjoint (apart (by decide))]
  · simp only [Finset.card_product, Finset.card_singleton, Finset.card_range]
  · exact Finset.disjoint_union_right.mpr ⟨apart (by decide), apart (by decide)⟩

theorem path_initSlots {a : Nat} (ha : a < 6442450944) : ∀ x ∈ path a, x ∈ initSlots := by
  intro x hx
  simp only [path, List.mem_cons, List.not_mem_nil, or_false] at hx
  rw [mem_initSlots]
  rcases hx with rfl | rfl | rfl
  all_goals
    simp only [slot, true_and]
    omega

theorem initSlots_path {x : Slot} (hx : x ∈ initSlots) : x ∈ initPages.flatMap path := by
  obtain ⟨l, q⟩ := x
  have known := mem_initSlots.mp hx
  dsimp only at known
  rw [List.mem_flatMap]
  rcases known with ⟨rfl, hq⟩ | ⟨rfl, hq⟩ | ⟨rfl, hq⟩
  · refine ⟨0, mem_initPages.mpr (by omega), ?_⟩
    obtain rfl : q = 0 := by omega
    decide
  · refine ⟨1073741824 * q, mem_initPages.mpr (by omega), ?_⟩
    have here : slot 2 (1073741824 * q) = (2, q) := by
      simp only [slot, Prod.mk.injEq, true_and]
      omega
    simp [path, here]
  · refine ⟨2097152 * q, mem_initPages.mpr (by omega), ?_⟩
    have here : slot 3 (2097152 * q) = (3, q) := by
      simp only [slot, Prod.mk.injEq, true_and]
      omega
    simp [path, here]

/-- Slots and frames alike lie below six gigabytes. -/
theorem initSlots_demand {frame : Nat → Nat} {u m : Nat} (hm : m ≤ 3079)
    (small : ∀ j, j < 3079 → frame j < 6442450944) :
    Demand.demand path frame (initPages.flatMap path) u m = initSlots := by
  ext x
  rw [Demand.mem_demand]
  constructor
  · rintro (hx | ⟨j, _, hj, hx⟩)
    · obtain ⟨a, ha, hx⟩ := List.mem_flatMap.mp hx
      exact path_initSlots (mem_initPages.mp ha).2 x hx
    · exact path_initSlots (small j (by omega)) x hx
  · exact fun hx => Or.inl (initSlots_path hx)

/-- What a run over the six gigabytes settles, with frames below six gigabytes. -/
theorem serve_initPages {frame : Nat → Nat} (small : ∀ j, j < 3079 → frame j < 6442450944)
    {L : Ledger Slot Nat} (h : ServeAll path frame initPages Ledger.empty L) :
    L.used = 3079 ∧ L.held = initSlots := by
  have fits : Fits path frame 3079 (initPages.flatMap path) Ledger.empty := by
    refine ⟨Nat.zero_le _, ?_⟩
    rw [initSlots_demand (Nat.le_refl _) small]
    simp [Ledger.empty, card_initSlots]
  have used := h.used_le fits
  obtain ⟨held, card, _⟩ := h.held_eq
  rw [initSlots_demand used small] at held
  have whole : L.held = initSlots := by simpa [Ledger.empty] using held
  refine ⟨?_, whole⟩
  rw [whole, card_initSlots] at card
  simpa [Ledger.empty] using card.symm

/-- The segment `set_placement` chose begins with 3079 whole pages below six
gigabytes, and `pml4` is none of them. -/
structure InitSegment (k : Image) (s : Vmm) : Prop where
  aligned : s.placement % 4096 = 0
  room : 3079 ≤ s.nPages
  below : s.placement + 3079 * 4096 ≤ 6442450944
  apart : k.pml4 < s.placement ∨ s.placement + 3079 * 4096 ≤ k.pml4

def InitSegment.plan {s : Vmm} (h : InitSegment k s) : Plan where
  base := s.placement
  lim := 3079
  pages := s.nPages
  old := []
  prior := s.allocs
  within := h.room
  span := fun _ => ⟨h.aligned, by have := h.below; omega⟩

/-- The address space of `init_vmm`: six gigabytes mapped to themselves,
nothing above, one table on the first level, six on the second, 3072 on the
third, in as many frames. -/
structure InitMapped (k : Image) (s₀ s : Vmm) : Prop where
  entry : ∀ a, a < gb * 6 → leafAt k s.mem a =
    some (a &&& pageAddrMask ||| (pageBitPPresent ||| pageBitRwWritable ||| pageBitUsUser))
  identity : ∀ a, a < gb * 6 → translate k s.mem a = some a
  above : ∀ a, gb * 6 ≤ a → a < 281474976710656 → translate k s.mem a = none
  tables : ∀ a, a < 281474976710656 →
    ((tableAt k s.mem a 1).isSome ↔ a / 549755813888 < 1) ∧
    ((tableAt k s.mem a 2).isSome ↔ a / 1073741824 < 6) ∧
    ((tableAt k s.mem a 3).isSome ↔ a / 2097152 < 3072)
  taken : newAllocs s₀ s =
    ((List.range 3079).map fun j => some (s₀.placement + 4096 * j)).reverse

theorem Rep.initMapped {p : Plan} {s₀ s : Vmm} {L : Ledger Slot Nat} {t : Tree} (h : Rep k p s L t)
    (base : p.base = s₀.placement) (start : s₀.allocs = p.old ++ p.prior)
    (small : ∀ j, j < 3079 → p.frame j < 6442450944)
    (serves : ServeAll path p.frame initPages Ledger.empty L) : InitMapped k s₀ s := by
  obtain ⟨used, held⟩ := serve_initPages small serves
  have visited (v : Nat) (hv : v ∈ L.visited) : v < 6442450944 := by
    cases (visited_run serves v).mp hv with
    | inl hv => exact (mem_initPages.mp hv).2
    | inr found =>
      obtain ⟨j, hj, rfl⟩ := found
      exact small j (by omega)
  have low : Low L := fun v hv => by have := visited v hv; omega
  have identity (a : Nat) (ha : a < 6442450944) : translate k s.mem a = some a := by
    refine (h.translate_some low (by omega)).mpr ⟨rfl, 4096 * (a / 4096), ?_, by omega⟩
    exact (visited_run serves _).mpr (Or.inl (mem_initPages.mpr (by omega)))
  have table (a l : Nat) (hl : l < 3) :
      (tableAt k s.mem a (l + 1)).isSome ↔ slot (l + 1) a ∈ initSlots := by
    rw [← held, Option.isSome_iff_exists]
    constructor
    · rintro ⟨f, there⟩
      exact ((h.tableAt_some hl).mp there).1
    · exact fun hx => ⟨_, (h.tableAt_some hl).mpr ⟨hx, rfl⟩⟩
  constructor
  case entry =>
    intro a ha
    simp only [gb] at ha
    obtain ⟨e, leaf, _⟩ := Option.map_eq_some_iff.mp (identity a (by omega))
    rw [leaf, (h.leafAt_eq low leaf).1]
    refine congrArg some (Eq.trans ?_ (entry_eq a).symm)
    simp only [pageNo]
    rw [mask_eq]
    omega
  case identity => exact fun a ha => identity a (by simp only [gb] at ha; omega)
  case above =>
    intro a lo hi
    cases there : translate k s.mem a with
    | none => rfl
    | some c =>
      obtain ⟨_, v, hv, same⟩ := (h.translate_some low hi).mp there
      have := visited v hv
      simp only [gb] at lo
      omega
  case tables =>
    intro a ha
    refine ⟨(table a 0 (by omega)).trans ?_, (table a 1 (by omega)).trans ?_,
      (table a 2 (by omega)).trans ?_⟩
    all_goals
      rw [mem_initSlots]
      simp only [slot, Nat.zero_add, Nat.reduceAdd, true_and]
      omega
  case taken =>
    rw [h.newAllocs start, used]
    simp only [Plan.frame, base]

theorem InitSegment.rep {s : Vmm} (h : InitSegment k s) (cleared : Cleared k s) :
    Rep k h.plan s Ledger.empty ⟨fun _ => k.pml4, fun _ => 0⟩ := by
  apply Rep.start cleared rfl rfl rfl
  intro j hj
  have lim : j < 3079 := hj
  have apart := h.apart
  show k.pml4 ≠ s.placement + 4096 * j
  omega

theorem InitSegment.frame_lt {s : Vmm} (h : InitSegment k s) (j : Nat) (hj : j < 3079) :
    h.plan.frame j < 6442450944 := by
  have below := h.below
  show s.placement + 4096 * j < _
  omega

theorem InitSegment.mapped {s : Vmm} (h : InitSegment k s) (cleared : Cleared k s) :
    InitMapped k s (s.mapPages k initPages) := by
  cases mapPages_serves (h.rep cleared) initPages with
  | inl fails =>
    refine absurd ⟨Nat.zero_le _, ?_⟩ (fails.short 3079 (Nat.le_refl _))
    rw [initSlots_demand (Nat.le_refl _) h.frame_lt]
    simp [Ledger.empty, card_initSlots]
  | inr found =>
    obtain ⟨L, t, serves, rep, _⟩ := found
    exact rep.initMapped rfl rfl h.frame_lt serves

/-- **`init_vmm` maps six gigabytes in 3079 frames.** It never runs out of
them, and only the first can have the null address. -/
theorem initVmm_builds (s : Vmm) (meminfo : Meminfo)
    (segment : InitSegment k (s.startVmm k meminfo)) :
    InitMapped k (s.startVmm k meminfo) (s.initVmm k meminfo) ∧
      none ∉ newAllocs (s.startVmm k meminfo) (s.initVmm k meminfo) ∧
      (some 0 ∈ newAllocs (s.startVmm k meminfo) (s.initVmm k meminfo) →
        (s.startVmm k meminfo).placement = 0) := by
  have mapped := segment.mapped (startVmm_cleared s meminfo)
  refine ⟨mapped, ?_, ?_⟩
  · rw [initVmm, mapped.taken]
    simp
  · rw [initVmm, mapped.taken]
    simp only [List.mem_reverse, List.mem_map, List.mem_range, Option.some.injEq]
    rintro ⟨j, _, zero⟩
    omega

theorem lowRoot_initSegment :
    InitSegment lowRoot (startVmm lowRoot (initial (oneSegment 0x100000 3079)) oneEntry) := by
  obtain ⟨placed, count⟩ := startVmm_one lowRoot (show 0x100000 < 2 ^ 64 by decide)
    (show 3079 < 2 ^ 64 by decide) (by decide)
  constructor
  · rw [placed]
  · rw [count]
  · rw [placed]
    decide
  · rw [placed]
    decide

theorem initVmm_builds_lowRoot :
    InitMapped lowRoot (startVmm lowRoot (initial (oneSegment 0x100000 3079)) oneEntry)
      (initVmm lowRoot (initial (oneSegment 0x100000 3079)) oneEntry) ∧
    none ∉ newAllocs (startVmm lowRoot (initial (oneSegment 0x100000 3079)) oneEntry)
      (initVmm lowRoot (initial (oneSegment 0x100000 3079)) oneEntry) ∧
    (some 0 ∈ newAllocs (startVmm lowRoot (initial (oneSegment 0x100000 3079)) oneEntry)
      (initVmm lowRoot (initial (oneSegment 0x100000 3079)) oneEntry) →
      (startVmm lowRoot (initial (oneSegment 0x100000 3079)) oneEntry).placement = 0) :=
  initVmm_builds (initial (oneSegment 0x100000 3079)) oneEntry lowRoot_initSegment

theorem initPages_cons : ∃ rest, initPages = 0 :: rest := by
  refine ⟨(List.range 1572863).map fun i => 4096 * (i + 1), ?_⟩
  rw [initPages, show gb * 6 / 4096 = 1572863 + 1 by decide, List.range_succ_eq_map,
    List.map_cons, List.map_map]
  rfl

def highRoot : Image := ⟨0x10000000, by decide, by decide, by decide⟩

/-- What the two conditions are for: with `pml4` as the first frame page 0 is
mapped to it, and a segment at address 0 begins with the null address. -/
theorem initVmm_builds_needs :
    (∃ (k : Image) (m : Mem) (meminfo : Meminfo) (s : Vmm),
      s = startVmm k (initial m) meminfo ∧ s.placement % 4096 = 0 ∧ 3079 ≤ s.nPages ∧
      s.placement + 3079 * 4096 ≤ 6442450944 ∧
      translate k (initVmm k (initial m) meminfo).mem 0 ≠ some 0) ∧
    (∃ (k : Image) (m : Mem) (meminfo : Meminfo) (s : Vmm),
      s = startVmm k (initial m) meminfo ∧ InitSegment k s ∧
      some 0 ∈ newAllocs s (initVmm k (initial m) meminfo)) := by
  constructor
  · obtain ⟨placed, count⟩ := startVmm_one lowRoot (show 0x1000 < 2 ^ 64 by decide)
      (show 3079 < 2 ^ 64 by decide) (by decide)
    refine ⟨lowRoot, oneSegment 0x1000 3079, oneEntry, _, rfl, ?_, ?_, ?_, ?_⟩
    · rw [placed]
    · rw [count]
    · rw [placed]
      decide
    · obtain ⟨rest, pages⟩ := initPages_cons
      have supply : (startVmm lowRoot (initial (oneSegment 0x1000 3079)) oneEntry).Supply := by
        intro _
        rw [placed, count]
        decide
      rw [initVmm, pages, mapPages_root supply (startVmm_cleared _ _) placed
        (by rw [count]; decide) (by decide)]
      decide
  · obtain ⟨placed, count⟩ := startVmm_one highRoot (show 0 < 2 ^ 64 by decide)
      (show 3079 < 2 ^ 64 by decide) (by decide)
    have segment :
        InitSegment highRoot (startVmm highRoot (initial (oneSegment 0 3079)) oneEntry) :=
      ⟨by rw [placed], by rw [count], by rw [placed]; decide, by rw [placed]; decide⟩
    refine ⟨highRoot, oneSegment 0 3079, oneEntry, _, rfl, segment, ?_⟩
    rw [initVmm, (segment.mapped (startVmm_cleared _ _)).taken, placed]
    simp only [List.mem_reverse, List.mem_map, List.mem_range]
    exact ⟨0, by decide, rfl⟩

end KessOS.Vmm
