import KessOS.MapRun

/-!
# Running out of frames

`map_page` does not test what `alloc_page` returns: without a free frame it
clears page 0 and links it as a table.

* `Enough`: the free frames cover what memory lacks for an address;
* `Rep.intact_iff`: exactly then a call leaves the address space intact;
* `reaches_intact`: the same in every state of a run.
-/

namespace KessOS.Vmm

open Demand (Ledger Serve Fits)

variable {k : Image}

/-! ## What is asked of a call -/

structure Preserved (k : Image) (s s' : Vmm) : Prop where
  translations : ∀ a b, translate k s.mem a = some b → translate k s'.mem a = some b
  pageZero : ∀ i, i < 4096 → s'.mem i = s.mem i
  entries : ∀ a l f, l < 3 → tableAt k s'.mem a (l + 1) = some f →
    tableAt k s.mem a (l + 1) = some f ∨ some f ∈ s'.allocs

/-- If `alloc_page` returned `NULL` in between, the address space is preserved. -/
def Intact (k : Image) (s s' : Vmm) : Prop :=
  none ∈ newAllocs s s' ∨ some 0 ∈ newAllocs s s' → Preserved k s s'

/-- The slots on the path of `a` that have no table yet. -/
def unlinked (k : Image) (m : Mem) (a : Nat) : List Slot :=
  ([1, 2, 3].filter fun l => (tableAt k m a l).isNone).map fun l => slot l a

/-- The slots without a table that `a` and the next `m` frames ask for. -/
def missing (k : Image) (s : Vmm) (a m : Nat) : Finset Slot :=
  ((a :: (List.range m).map fun j => s.placement + 4096 * j).flatMap (unlinked k s.mem)).toFinset

/-- Some number of the free frames is enough for the address and for the
frames themselves. -/
def Enough (k : Image) (s : Vmm) (a : Nat) : Prop :=
  ∃ m, m ≤ s.nPages ∧ (missing k s a m).card ≤ m

/-! ## Calls and runs -/

inductive Call where
  | setPlacement (meminfo : Meminfo)
  | mapPage (logical : Nat)

def Call.run (k : Image) (s : Vmm) : Call → Vmm
  | .setPlacement meminfo => s.setPlacement meminfo
  | .mapPage logical => s.mapPage k logical

/-- Whole pages of physical memory, none of them page 0, `pml4` or a page
handed out before. -/
structure FreeSegment (k : Image) (s : Vmm) : Prop where
  aligned : s.placement % 4096 = 0
  nonnull : 0 < s.placement
  below : s.placement + 4096 * s.nPages ≤ 4503599627370496
  root : k.pml4 < s.placement ∨ s.placement + 4096 * s.nPages ≤ k.pml4
  taken : ∀ f, some f ∈ s.allocs → f < s.placement ∨ s.placement + 4096 * s.nPages ≤ f

/-- `set_placement` may find no usable memory at all. -/
def Call.Allowed (k : Image) (s : Vmm) : Call → Prop
  | .setPlacement meminfo =>
    0 < (s.setPlacement meminfo).nPages → FreeSegment k (s.setPlacement meminfo)
  | .mapPage logical => Enough k s logical

/-- The states of runs in which every call is allowed. -/
inductive Reaches (k : Image) : Vmm → Prop where
  | start {s : Vmm} : Cleared k s → (∀ f, some f ∉ s.allocs) →
      (0 < s.nPages → FreeSegment k s) → Reaches k s
  | next {s : Vmm} (call : Call) : Reaches k s → call.Allowed k s → Reaches k (call.run k s)

/-! ## No frame has the null address -/

structure NonNull (s : Vmm) : Prop where
  supply : s.Supply
  nonnull : 0 < s.nPages → 0 < s.placement
  clean : some 0 ∉ s.allocs

theorem linkTable_nonNull {s : Vmm} (h : NonNull s) (masked : Bool) (entry : Nat) :
    NonNull (s.linkTable masked entry).2 := by
  by_cases empty : s.nPages = 0
  · rw [linkTable_none masked entry empty]
    exact ⟨dry_supply empty, fun pos => absurd empty (Nat.ne_of_gt pos), by simp [h.clean]⟩
  · have pos : 0 < s.nPages := by omega
    obtain ⟨aligned, top⟩ := h.supply pos
    have nonnull := h.nonnull pos
    rw [linkTable_pos masked entry pos aligned (by omega)]
    refine ⟨?_, ?_, ?_⟩
    · intro _
      simp only [linked_placement, linked_nPages]
      omega
    · intro _
      simp only [linked_placement]
      omega
    · simp only [linked_allocs, List.mem_cons, Option.some.injEq, not_or]
      exact ⟨by omega, h.clean⟩

theorem mapPage_nonNull {s : Vmm} (h : NonNull s) (a : Nat) : NonNull (s.mapPage k a) := by
  refine mapPageN_run (R := fun s s' => NonNull s → NonNull s') (fun _ => id)
    (fun h₁ h₂ h => h₂ (h₁ h)) ?_ ?_ (mapPage_run (k := k) s a) h
  · exact fun s masked entry _ _ h => linkTable_nonNull h masked entry
  · exact fun s entry v _ _ h => ⟨h.supply, h.nonnull, h.clean⟩

/-! ## What memory lacks is what the tree lacks -/

variable {p : Plan} {s : Vmm} {L : Ledger Slot Nat} {t : Tree}

theorem Rep.mem_unlinked (h : Rep k p s L t) {a : Nat} {x : Slot} :
    x ∈ unlinked k s.mem a ↔ x ∈ path a ∧ x ∉ L.held := by
  have table (l : Nat) (hl : l < 3) :
      (tableAt k s.mem a (l + 1)).isNone ↔ slot (l + 1) a ∉ L.held := by
    obtain ⟨on, off⟩ := h.tableAt_eq a (l + 1) hl
    rw [slot_succ_table] at on off
    by_cases hx : slot (l + 1) a ∈ L.held
    · simp [on hx, hx]
    · simp [off hx, hx]
  simp only [unlinked, List.mem_map, List.mem_filter, List.mem_cons, List.not_mem_nil, or_false,
    path]
  constructor
  · rintro ⟨l, ⟨rfl | rfl | rfl, gone⟩, rfl⟩
    · exact ⟨Or.inl rfl, (table 0 (by omega)).mp gone⟩
    · exact ⟨Or.inr (Or.inl rfl), (table 1 (by omega)).mp gone⟩
    · exact ⟨Or.inr (Or.inr rfl), (table 2 (by omega)).mp gone⟩
  · rintro ⟨rfl | rfl | rfl, gone⟩
    · exact ⟨1, ⟨Or.inl rfl, (table 0 (by omega)).mpr gone⟩, rfl⟩
    · exact ⟨2, ⟨Or.inr (Or.inl rfl), (table 1 (by omega)).mpr gone⟩, rfl⟩
    · exact ⟨3, ⟨Or.inr (Or.inr rfl), (table 2 (by omega)).mpr gone⟩, rfl⟩

theorem Rep.missing_eq (h : Rep k p s L t) (a m : Nat) : missing k s a m =
    Demand.demand path p.frame (path a) L.used (L.used + m) \ L.held := by
  have place : s.placement = p.base + 4096 * L.used := h.placed
  ext x
  simp only [missing, List.mem_toFinset, List.mem_flatMap, List.mem_cons, List.mem_map,
    List.mem_range, Finset.mem_sdiff, Demand.mem_demand, h.mem_unlinked]
  constructor
  · rintro ⟨b, rfl | ⟨j, hj, rfl⟩, hx, gone⟩
    · exact ⟨Or.inl hx, gone⟩
    · refine ⟨Or.inr ⟨L.used + j, by omega, by omega, ?_⟩, gone⟩
      rwa [Plan.frame, show p.base + 4096 * (L.used + j) = s.placement + 4096 * j by omega]
  · rintro ⟨hx | ⟨j, lo, hi, hx⟩, gone⟩
    · exact ⟨a, Or.inl rfl, hx, gone⟩
    · refine ⟨p.frame j, Or.inr ⟨j - L.used, by omega, ?_⟩, hx, gone⟩
      rw [Plan.frame]
      omega

theorem Rep.fits_iff (h : Rep k p s L t) (a m : Nat) :
    Fits path p.frame (L.used + m) (path a) L ↔ (missing k s a m).card ≤ m := by
  have count := Finset.card_sdiff_add_card
    (Demand.demand path p.frame (path a) L.used (L.used + m)) L.held
  rw [h.missing_eq, Fits, Finset.union_comm]
  omega

/-- With all frames in the plan, enough is what fits. -/
theorem Rep.enough_iff (h : Rep k p s L t) (all : p.lim = p.pages) (a : Nat) :
    Enough k s a ↔ ∃ m, m ≤ p.lim ∧ Fits path p.frame m (path a) L := by
  have total := h.total
  constructor
  · rintro ⟨m, hm, few⟩
    exact ⟨L.used + m, by omega, (h.fits_iff a m).mpr few⟩
  · rintro ⟨m, hm, fits⟩
    have used := fits.1
    refine ⟨m - L.used, by omega, (h.fits_iff a _).mp ?_⟩
    rwa [Nat.add_sub_cancel' used]

/-! ## One call -/

/-- A new link to page 0 is not preserved, unless page 0 was handed out. -/
theorem Rep.not_preserved {s' : Vmm} (h : Rep k p s L t) (clean : some 0 ∉ s.allocs)
    (clean' : some 0 ∉ s'.allocs) (linked : NullLinked k s') : ¬ Preserved k s s' := by
  intro kept
  obtain ⟨a, l, hl, null, _⟩ := linked.reach
  cases kept.entries a l 0 hl null with
  | inl old =>
    obtain ⟨held, zero⟩ := (h.tableAt_some hl).mp old
    have handed := h.handed _ held
    rw [← zero] at handed
    exact clean (h.log ▸ List.mem_append_left _ handed)
  | inr handed => exact clean' handed

/-- **A call leaves the address space intact exactly when the frames are enough.** -/
theorem Rep.intact_iff (h : Rep k p s L t) (all : p.lim = p.pages) (nonNull : NonNull s) (a : Nat) :
    Intact k s (s.mapPage k a) ↔ Enough k s a := by
  have after := mapPage_nonNull (k := k) nonNull a
  have later := mapPageN_later (mapPage_run (k := k) s a)
  rw [h.enough_iff all]
  cases h.mapPage a with
  | inl fails =>
    have starved := fails.starved all
    constructor
    · intro intact
      obtain ⟨new, grown, out⟩ := starved.ran_out
      rw [← newAllocs_eq grown] at out
      exact absurd (intact (Or.inl out))
        (h.not_preserved nonNull.clean after.clean (starved.linked after.clean))
    · rintro ⟨m, hm, fits⟩
      exact absurd fits (fails.short m hm)
  | inr found =>
    obtain ⟨L', t', serve, rep, _⟩ := found
    have le := serve.settle.2.2
    have used := rep.total
    constructor
    · intro _
      obtain ⟨L₁, settle, rfl⟩ := serve
      exact ⟨L₁.used, by simp only [Ledger.visit_used] at used; omega, settle.fits_self⟩
    · intro _ null
      cases null with
      | inl out => exact absurd out (h.no_failure rep le)
      | inr zero =>
        obtain ⟨new, grown⟩ := later.allocs
        rw [newAllocs_eq grown] at zero
        exact absurd (grown ▸ List.mem_append_left _ zero) after.clean

/-! ## Runs -/

/-- What every run keeps: memory holds a tree, all free frames are in its
plan, and none of them is page 0. -/
structure Tracked (k : Image) (s : Vmm) : Prop where
  rep : ∃ p L t, Rep k p s L t ∧ p.lim = p.pages
  nonNull : NonNull s

def FreeSegment.plan (s : Vmm) (free : 0 < s.nPages → FreeSegment k s)
    (old prior : List (Option Nat)) : Plan :=
  .whole s old prior fun pos => ⟨(free pos).aligned, (free pos).below⟩

theorem FreeSegment.nonNull {s : Vmm} (free : 0 < s.nPages → FreeSegment k s)
    (clean : some 0 ∉ s.allocs) : NonNull s :=
  ⟨fun pos => ⟨(free pos).aligned, (free pos).below⟩, fun pos => (free pos).nonnull, clean⟩

/-- A new segment starts a new plan over the same tree. -/
theorem Rep.replan (h : Rep k p s L t) (s' : Vmm) (mem : s'.mem = s.mem)
    (allocs : s'.allocs = s.allocs) (free : 0 < s'.nPages → FreeSegment k s') :
    Rep k (FreeSegment.plan s' free (p.taken L.used) p.prior) s' { L with used := 0 } t := by
  constructor
  case top => exact h.top
  case shape => exact h.shape
  case inner =>
    rw [mem]
    exact h.inner
  case leaves =>
    rw [mem]
    exact h.leaves
  case word => exact h.word
  case mapped => exact h.mapped
  case page => exact h.page
  case handed => exact h.handed
  case inj => exact h.inj
  case placed => exact (Nat.add_zero _).symm
  case total => exact Nat.zero_add _
  case fresh =>
    intro x hx j _ hj
    have lim : j < s'.nPages := hj
    have segment := free (by omega)
    have apart : t.frame x < s'.placement ∨ s'.placement + 4096 * s'.nPages ≤ t.frame x := by
      rcases hx with rfl | hx
      · rw [h.top]
        exact segment.root
      · apply segment.taken _
        rw [allocs, h.log]
        exact List.mem_append_left _ (h.handed x hx)
    show t.frame x ≠ s'.placement + 4096 * j
    omega
  case log => rw [allocs, h.log]; rfl

theorem Tracked.start {s : Vmm} (cleared : Cleared k s) (unused : ∀ f, some f ∉ s.allocs)
    (free : 0 < s.nPages → FreeSegment k s) : Tracked k s := by
  have rep : Rep k (FreeSegment.plan s free [] s.allocs) s Ledger.empty
      ⟨fun _ => k.pml4, fun _ => 0⟩ := by
    apply Rep.start cleared rfl rfl rfl
    intro j hj
    have lim : j < s.nPages := hj
    have apart := (free (by omega)).root
    show k.pml4 ≠ s.placement + 4096 * j
    omega
  exact ⟨⟨_, _, _, rep, rfl⟩, FreeSegment.nonNull free (unused 0)⟩

theorem Tracked.setPlacement {s : Vmm} (h : Tracked k s) (meminfo : Meminfo)
    (free : 0 < (s.setPlacement meminfo).nPages → FreeSegment k (s.setPlacement meminfo)) :
    Tracked k (s.setPlacement meminfo) := by
  obtain ⟨⟨p, L, t, rep, _⟩, nonNull⟩ := h
  exact ⟨⟨_, _, _, rep.replan (s.setPlacement meminfo) rfl rfl free, rfl⟩,
    FreeSegment.nonNull free nonNull.clean⟩

theorem Tracked.mapPage {s : Vmm} (h : Tracked k s) {a : Nat} (enough : Enough k s a) :
    Tracked k (s.mapPage k a) := by
  obtain ⟨⟨p, L, t, rep, all⟩, nonNull⟩ := h
  obtain ⟨m, hm, fits⟩ := (rep.enough_iff all a).mp enough
  cases rep.mapPage a with
  | inl fails => exact absurd fits (fails.short m hm)
  | inr found =>
    obtain ⟨L', t', _, rep', _⟩ := found
    exact ⟨⟨p, L', t', rep', all⟩, mapPage_nonNull nonNull a⟩

theorem reaches_tracked {s : Vmm} (h : Reaches k s) : Tracked k s := by
  induction h with
  | start cleared unused free => exact .start cleared unused free
  | next call _ allowed ih =>
    cases call with
    | setPlacement meminfo => exact ih.setPlacement meminfo allowed
    | mapPage logical => exact ih.mapPage allowed

/-- **In every run whose calls are allowed, a further call leaves the address
space intact exactly when the free frames are enough for it.** -/
theorem reaches_intact {s : Vmm} (h : Reaches k s) (a : Nat) :
    Intact k s (s.mapPage k a) ↔ Enough k s a := by
  obtain ⟨⟨p, L, t, rep, all⟩, nonNull⟩ := reaches_tracked h
  exact rep.intact_iff all nonNull a

/-! ## A segment of two pages -/

theorem unlinked_cleared {s : Vmm} (cleared : Cleared k s) (a : Nat) :
    unlinked k s.mem a = path a := by
  have first := cleared.no_table a
  have second : tableAt k s.mem a 2 = none := by rw [tableAt, first, Option.bind_none]
  have third : tableAt k s.mem a 3 = none := by rw [tableAt, second, Option.bind_none]
  simp [unlinked, first, second, third, path]

def twoPages : Vmm := startVmm lowRoot (initial (oneSegment 0x10000 2)) oneEntry

theorem reaches_twoPages : Reaches lowRoot twoPages := by
  obtain ⟨placed, count⟩ := startVmm_one lowRoot (show 0x10000 < 2 ^ 64 by decide)
    (show 2 < 2 ^ 64 by decide) (by decide)
  have none_yet (f : Nat) : some f ∉ twoPages.allocs := List.not_mem_nil
  refine .start (startVmm_cleared _ _) none_yet fun _ => ?_
  constructor
  case aligned => rw [twoPages, placed]
  case nonnull => rw [twoPages, placed]; decide
  case below => rw [twoPages, placed, count]; decide
  case root => rw [twoPages, placed]; decide
  case taken => exact fun f hf => absurd hf (none_yet f)

/-- Two frames are too few for page 0, which needs three tables. -/
theorem twoPages_short : ¬ Enough lowRoot twoPages 0 := by
  obtain ⟨placed, count⟩ := startVmm_one lowRoot (show 0x10000 < 2 ^ 64 by decide)
    (show 2 < 2 ^ 64 by decide) (by decide)
  rintro ⟨m, hm, few⟩
  rw [twoPages, count] at hm
  have three : (path 0).toFinset ⊆ missing lowRoot twoPages 0 m := by
    intro x hx
    rw [missing, List.mem_toFinset, List.mem_flatMap]
    refine ⟨0, List.mem_cons_self, ?_⟩
    rw [unlinked_cleared (s := twoPages) (startVmm_cleared _ _)]
    exact List.mem_toFinset.mp hx
  have := Finset.card_le_card three
  have : (path 0).toFinset.card = 3 := by decide
  omega

theorem twoPages_not_intact :
    Reaches lowRoot twoPages ∧ ¬ Intact lowRoot twoPages (twoPages.mapPage lowRoot 0) := by
  obtain ⟨⟨p, L, t, rep, all⟩, nonNull⟩ := reaches_tracked reaches_twoPages
  exact ⟨reaches_twoPages, fun intact => twoPages_short ((rep.intact_iff all nonNull 0).mp intact)⟩

theorem reaches_intact_twoPages :
    Intact lowRoot twoPages (twoPages.mapPage lowRoot 0) ↔ Enough lowRoot twoPages 0 :=
  reaches_intact reaches_twoPages 0

end KessOS.Vmm
