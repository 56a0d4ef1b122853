import KessOS.MapRun

/-!
# What a run of map_page leaves behind

* `mapPages_tree`: the tables form a tree of frames that were handed out, and
  map every address of the run and themselves to the same physical address;
* `mapPages_order`: neither the frames used nor the set of mapped pages depends
  on the order of the addresses or on repetitions.
-/

namespace KessOS.Vmm

open Demand (Ledger ServeAll Fits)

variable {k : Image} {p : Plan} {s : Vmm} {L : Ledger Slot Nat} {t : Tree}

/-! ## Pages and their slots -/

theorem slot_congr {a b : Nat} (same : a / 4096 = b / 4096) {l : Nat} (hl : l ≤ 3) :
    slot l a = slot l b := by
  obtain rfl | rfl | rfl | rfl : l = 0 ∨ l = 1 ∨ l = 2 ∨ l = 3 := by omega
  all_goals
    simp only [slot, Prod.mk.injEq, true_and]
    omega

theorem path_congr {a b : Nat} (same : a / 4096 = b / 4096) : path a = path b := by
  simp only [path, slot_congr same (show 1 ≤ 3 by omega), slot_congr same (show 2 ≤ 3 by omega),
    slot_congr same (Nat.le_refl 3)]

/-- A slot is the list of indices that lead to it. -/
theorem slot_indices {a b : Nat} : ∀ {l : Nat}, l ≤ 3 → slot l a = slot l b →
    ∀ j, j < l → index j a = index j b := by
  intro l
  induction l with
  | zero => intro _ _ j hj; omega
  | succ l ih =>
    intro hl same j hj
    rw [slot_succ (by omega), slot_succ (by omega)] at same
    obtain ⟨up, last⟩ := child_inj (index_lt l a) (index_lt l b) same
    by_cases here : j = l
    · exact here ▸ last
    · exact ih (by omega) up j (by omega)

/-- The page address made of four table indices. -/
def pageAddr (i₀ i₁ i₂ i₃ : Nat) : Nat := i₀ <<< 39 + i₁ <<< 30 + i₂ <<< 21 + i₃ <<< 12

theorem pageAddr_index (a : Nat) :
    pageAddr (index 0 a) (index 1 a) (index 2 a) (index 3 a) = 4096 * pageNo a := by
  simp only [pageAddr, index_eq, pageNo, Nat.shiftLeft_eq]
  omega

/-! ## Leaves below 2^48 -/

/-- Everything mapped so far lies below 2^48. -/
def Low (L : Ledger Slot Nat) : Prop := ∀ v ∈ L.visited, v < 281474976710656

theorem Rep.leaf_value (h : Rep k p s L t) (low : Low L) {n : Nat} (ne : t.leaf n ≠ 0) :
    t.leaf n = 4096 * n + 7 ∧ ∃ v ∈ L.visited, v / 4096 = n := by
  obtain ⟨⟨v, hv, page, word⟩, _⟩ := h.word n ne
  have small := low v hv
  simp only [pageNo] at page
  rw [entry_eq, mask_eq] at word
  exact ⟨by omega, v, hv, by omega⟩

theorem Rep.leafAt_eq (h : Rep k p s L t) (low : Low L) {a e : Nat}
    (there : leafAt k s.mem a = some e) :
    e = 4096 * pageNo a + 7 ∧ ∃ v ∈ L.visited, v / 4096 = pageNo a := by
  obtain ⟨rfl, ne⟩ := h.leafAt_some.mp there
  exact h.leaf_value low ne

/-- An address translates exactly when its page was mapped, and then to itself. -/
theorem Rep.translate_some (h : Rep k p s L t) (low : Low L) {b c : Nat}
    (hb : b < 281474976710656) :
    translate k s.mem b = some c ↔ c = b ∧ ∃ v ∈ L.visited, v / 4096 = b / 4096 := by
  have page : pageNo b = b / 4096 := by
    simp only [pageNo]
    omega
  constructor
  · intro there
    obtain ⟨e, leaf, rfl⟩ := Option.map_eq_some_iff.mp there
    obtain ⟨value, v, hv, same⟩ := h.leafAt_eq low leaf
    rw [page] at value same
    refine ⟨?_, v, hv, same⟩
    rw [value, mask_eq]
    omega
  · rintro ⟨rfl, v, hv, same⟩
    have small := low v hv
    have ne := h.mapped v hv
    have there : pageNo v = pageNo c := by
      rw [page, ← same]
      simp only [pageNo]
      omega
    rw [there] at ne
    have leaf := h.leafAt_some.mpr ⟨rfl, ne⟩
    have value := (h.leaf_value low ne).1
    rw [translate, leaf, Option.map_some, value, page, mask_eq]
    congr 1
    omega

/-! ## A run that never ran out -/

/-- What a run mapped: its list and the frames it took. -/
theorem visited_run {frame : Nat → Nat} {as : List Nat} {L : Ledger Slot Nat}
    (h : ServeAll path frame as Ledger.empty L) (b : Nat) :
    b ∈ L.visited ↔ b ∈ as ∨ ∃ j, j < L.used ∧ b = frame j := by
  rw [h.visited_iff b]
  constructor
  · rintro (hb | hb | ⟨j, _, hj, e⟩)
    · exact Or.inl hb
    · exact absurd hb (Set.notMem_empty b)
    · exact Or.inr ⟨j, hj, e⟩
  · rintro (hb | ⟨j, hj, e⟩)
    · exact Or.inl hb
    · exact Or.inr (Or.inr ⟨j, Nat.zero_le j, hj, e⟩)

/-- A run from a segment of free frames that never ran out served its list. -/
theorem Segment.served {top : Nat} {s : Vmm} (h : Segment k top s) (low : top ≤ 4503599627370496)
    (cleared : Cleared k s) {as : List Nat}
    (never : none ∉ newAllocs s (s.mapPages k as)) :
    ∃ L t, ServeAll path (h.plan low).frame as Ledger.empty L ∧
      Rep k (h.plan low) (s.mapPages k as) L t := by
  cases mapPages_serves (h.rep low cleared) as with
  | inl fails =>
    obtain ⟨new, grown, out⟩ := (fails.starved rfl).ran_out
    rw [newAllocs_eq grown] at never
    exact absurd out never
  | inr found =>
    obtain ⟨L, t, serves, rep, _⟩ := found
    exact ⟨L, t, serves, rep⟩

/-- Enough frames for the slots of a list and of the frames themselves. -/
theorem Segment.enough {top : Nat} {s : Vmm} (h : Segment k top s) (low : top ≤ 4503599627370496)
    (cleared : Cleared k s) {as : List Nat} {m : Nat}
    (hm : m ≤ s.nPages) (fits : Fits path (h.plan low).frame m (as.flatMap path) Ledger.empty) :
    none ∉ newAllocs s (s.mapPages k as) := by
  cases mapPages_serves (h.rep low cleared) as with
  | inl fails => exact absurd fits (fails.short m hm)
  | inr found =>
    obtain ⟨L, t, _, rep, _⟩ := found
    exact rep.never_ran_out rfl

theorem Rep.used_le (h : Rep k p s L t) : L.used ≤ p.pages := by
  have := h.total
  omega

/-- A frame of the segment lies below its end. -/
theorem Segment.frame_lt {top : Nat} {s : Vmm} (h : Segment k top s) {j : Nat} (hj : j < s.nPages) :
    s.placement + 4096 * j + 4096 ≤ top := by
  have := h.below
  omega

theorem Segment.low {s : Vmm} (h : Segment k 281474976710656 s) {as : List Nat}
    (small : ∀ a ∈ as, a < 281474976710656) {L : Ledger Slot Nat}
    (serves : ServeAll path (h.plan (by omega)).frame as Ledger.empty L)
    (used : L.used ≤ s.nPages) : Low L := by
  intro v hv
  cases (visited_run serves v).mp hv with
  | inl hv => exact small v hv
  | inr found =>
    obtain ⟨j, hj, rfl⟩ := found
    have below := h.frame_lt (show j < s.nPages by omega)
    show s.placement + 4096 * j < _
    omega

/-! ## The tree of tables -/

/-- The tables of `s` are frames handed out since `s₀`, each linked once; the
leaves map pages to themselves, those of the tables among them. -/
structure TableTree (k : Image) (s₀ s : Vmm) : Prop where
  handed : ∀ a l f, l < 3 → tableAt k s.mem a (l + 1) = some f →
    some f ∈ newAllocs s₀ s ∧ f < s.placement
  distinct : ∀ a b l l' f, l ≤ 3 → l' ≤ 3 → tableAt k s.mem a l = some f →
    tableAt k s.mem b l' = some f → l = l' ∧ ∀ j, j < l → index j a = index j b
  leaf : ∀ a e, leafAt k s.mem a = some e →
    e = pageAddr (index 0 a) (index 1 a) (index 2 a) (index 3 a) |||
      (pageBitPPresent ||| pageBitRwWritable ||| pageBitUsUser)
  tables : ∀ a l f, l < 3 → tableAt k s.mem a (l + 1) = some f →
    ∀ i, i < 4096 → translate k s.mem (f + i) = some (f + i)

/-- The tables of a run that began without any are frames of its segment. -/
theorem Rep.frame_taken (h : Rep k p s L t) {x : Slot} (hx : x ∈ L.held) (first : p.old = []) :
    ∃ j, j < L.used ∧ t.frame x = p.frame j := by
  have := h.handed x hx
  rw [p.taken_eq, first] at this
  simpa [eq_comm] using this

theorem Rep.tableTree (h : Rep k p s L t) (low : Low L) (first : p.old = []) {s₀ : Vmm}
    (start : s₀.allocs = p.prior) (small : ∀ j, j < L.used → p.frame j + 4096 ≤ 281474976710656)
    (own : ∀ j, j < L.used → p.frame j ∈ L.visited) : TableTree k s₀ s := by
  have taken {a l f : Nat} (hl : l < 3) (there : tableAt k s.mem a (l + 1) = some f) :
      ∃ j, j < L.used ∧ f = p.frame j := by
    obtain ⟨hx, rfl⟩ := (h.tableAt_some hl).mp there
    exact h.frame_taken hx first
  have known {a l f : Nat} (hl : l ≤ 3) (there : tableAt k s.mem a l = some f) :
      IsTable L (slot l a) ∧ f = t.frame (slot l a) := by
    obtain ⟨on, off⟩ := h.tableAt_eq a l hl
    by_cases hx : IsTable L (slot l a)
    · exact ⟨hx, Option.some.inj (there.symm.trans (on hx))⟩
    · rw [off hx] at there
      cases there
  constructor
  case handed =>
    intro a l f hl there
    obtain ⟨j, hj, rfl⟩ := taken hl there
    refine ⟨(h.mem_newAllocs (by rw [first, start, List.nil_append]) _).mpr ⟨j, hj, rfl⟩, ?_⟩
    rw [h.placed]
    simp only [Plan.frame]
    omega
  case distinct =>
    intro a b l l' f hl hl' ha hb
    obtain ⟨xa, rfl⟩ := known hl ha
    obtain ⟨xb, same⟩ := known hl' hb
    have slots := h.inj _ _ xa xb same
    have level : l = l' := congrArg Prod.fst slots
    subst level
    exact ⟨rfl, slot_indices hl slots⟩
  case leaf =>
    intro a e there
    rw [pageAddr_index, (h.leafAt_eq low there).1]
    exact (Bits.or_low 12 (by omega) (by decide)).symm
  case tables =>
    intro a l f hl there i hi
    obtain ⟨j, hj, rfl⟩ := taken hl there
    obtain ⟨hx, same⟩ := known (by omega) there
    have aligned := h.aligned hx
    have below := small j hj
    rw [← same] at aligned
    refine (h.translate_some low (by omega)).mpr ⟨rfl, p.frame j, own j hj, ?_⟩
    omega

/-- **The tables form a tree and map what the run asked for.** -/
theorem mapPages_tree (s : Vmm) (meminfo : Meminfo)
    (segment : Segment k 281474976710656 (s.startVmm k meminfo)) (as : List Nat)
    (small : ∀ a ∈ as, a < 281474976710656)
    (never : none ∉ newAllocs (s.startVmm k meminfo) ((s.startVmm k meminfo).mapPages k as)) :
    TableTree k (s.startVmm k meminfo) ((s.startVmm k meminfo).mapPages k as) ∧
      ∀ a ∈ as, ∀ b, b / 4096 = a / 4096 →
        translate k ((s.startVmm k meminfo).mapPages k as).mem b = some b := by
  obtain ⟨L, t, serves, rep⟩ := segment.served (by omega) (startVmm_cleared s meminfo) never
  have used : L.used ≤ (s.startVmm k meminfo).nPages := rep.used_le
  have low := segment.low small serves used
  refine ⟨rep.tableTree low rfl rfl (fun j hj => segment.frame_lt (by omega)) fun j hj => ?_, ?_⟩
  · exact (visited_run serves _).mpr (Or.inr ⟨j, hj, rfl⟩)
  · intro a ha b same
    have := small a ha
    refine (rep.translate_some low (by omega)).mpr ⟨rfl, a, ?_, same.symm⟩
    exact (visited_run serves a).mpr (Or.inl ha)

/-- Sixteen frames above the root. -/
def lowStart : Vmm := startVmm lowRoot (initial (oneSegment 0x10000 16)) oneEntry

theorem lowStart_segment : Segment lowRoot 281474976710656 lowStart :=
  segment_one (by decide) (by decide) (by decide) (by decide) (Or.inl (by decide))

theorem lowStart_never {as : List Nat}
    (fits : Fits path (fun j => 0x10000 + 4096 * j) 5 (as.flatMap path) Ledger.empty) :
    none ∉ newAllocs lowStart (lowStart.mapPages lowRoot as) := by
  obtain ⟨placed, count⟩ := startVmm_one lowRoot (show 0x10000 < 2 ^ 64 by decide)
    (show 16 < 2 ^ 64 by decide) (by decide)
  have room : 5 ≤ lowStart.nPages := by
    rw [lowStart, count]
    decide
  apply lowStart_segment.enough (by decide) (startVmm_cleared _ _) room
  have frames : (lowStart_segment.plan (by decide)).frame = fun j => 0x10000 + 4096 * j := by
    funext j
    rw [Segment.plan_frame, lowStart, placed]
  rwa [frames]

theorem mapPages_tree_lowStart :
    TableTree lowRoot lowStart (lowStart.mapPages lowRoot [0x40005123, 0x5000]) ∧
      ∀ a ∈ [0x40005123, 0x5000], ∀ b, b / 4096 = a / 4096 →
        translate lowRoot (lowStart.mapPages lowRoot [0x40005123, 0x5000]).mem b = some b :=
  mapPages_tree (initial (oneSegment 0x10000 16)) oneEntry lowStart_segment
    [0x40005123, 0x5000] (by decide) (lowStart_never ⟨by decide, by decide⟩)

/-! ## The order of the addresses -/

/-- Exactly the pages of a list and of the frames taken since `s₀` are mapped,
each to itself. -/
def MapsExactly (k : Image) (s₀ s : Vmm) (as : List Nat) : Prop :=
  ∀ b, b < 281474976710656 → ∀ c, translate k s.mem b = some c ↔
    c = b ∧ ((∃ a ∈ as, a / 4096 = b / 4096) ∨
      ∃ f, some f ∈ newAllocs s₀ s ∧ f / 4096 = b / 4096)

theorem Rep.mapsExactly (h : Rep k p s L t) (low : Low L) {s₀ : Vmm}
    (start : s₀.allocs = p.old ++ p.prior) {as : List Nat}
    (serves : ServeAll path p.frame as Ledger.empty L) : MapsExactly k s₀ s as := by
  intro b hb c
  rw [h.translate_some low hb]
  refine and_congr_right fun _ => ⟨?_, ?_⟩
  · rintro ⟨v, hv, same⟩
    cases (visited_run serves v).mp hv with
    | inl hv => exact Or.inl ⟨v, hv, same⟩
    | inr found =>
      obtain ⟨j, hj, rfl⟩ := found
      exact Or.inr ⟨_, (h.mem_newAllocs start _).mpr ⟨j, hj, rfl⟩, same⟩
  · rintro (⟨a, ha, same⟩ | ⟨f, hf, same⟩)
    · exact ⟨a, (visited_run serves a).mpr (Or.inl ha), same⟩
    · obtain ⟨j, hj, rfl⟩ := (h.mem_newAllocs start f).mp hf
      exact ⟨_, (visited_run serves _).mpr (Or.inr ⟨j, hj, rfl⟩), same⟩

/-- Lists of the same pages ask for the same slots. -/
theorem flatMap_path_congr {as bs : List Nat}
    (pages : ∀ n, (∃ a ∈ as, a / 4096 = n) ↔ ∃ b ∈ bs, b / 4096 = n) (x : Slot) :
    x ∈ as.flatMap path ↔ x ∈ bs.flatMap path := by
  have half {as bs : List Nat} (sub : ∀ n, (∃ a ∈ as, a / 4096 = n) → ∃ b ∈ bs, b / 4096 = n)
      (hx : x ∈ as.flatMap path) : x ∈ bs.flatMap path := by
    obtain ⟨a, ha, hx⟩ := List.mem_flatMap.mp hx
    obtain ⟨b, hb, same⟩ := sub _ ⟨a, ha, rfl⟩
    exact List.mem_flatMap.mpr ⟨b, hb, path_congr same ▸ hx⟩
  exact ⟨half fun n => (pages n).mp, half fun n => (pages n).mpr⟩

/-- **Order and repetitions do not matter.** Two runs over the same pages with
the same placement take the same frames, whatever else differs between their
memories, and each maps exactly its pages and those frames. -/
theorem mapPages_order (s₁ s₂ : Vmm) (segment₁ : Segment k 281474976710656 s₁)
    (segment₂ : Segment k 281474976710656 s₂) (cleared₁ : Cleared k s₁) (cleared₂ : Cleared k s₂)
    (placed : s₁.placement = s₂.placement) (as bs : List Nat)
    (small₁ : ∀ a ∈ as, a < 281474976710656) (small₂ : ∀ b ∈ bs, b < 281474976710656)
    (pages : ∀ n, (∃ a ∈ as, a / 4096 = n) ↔ ∃ b ∈ bs, b / 4096 = n)
    (never₁ : none ∉ newAllocs s₁ (s₁.mapPages k as))
    (never₂ : none ∉ newAllocs s₂ (s₂.mapPages k bs)) :
    newAllocs s₁ (s₁.mapPages k as) = newAllocs s₂ (s₂.mapPages k bs) ∧
      MapsExactly k s₁ (s₁.mapPages k as) as ∧ MapsExactly k s₂ (s₂.mapPages k bs) bs := by
  obtain ⟨L₁, t₁, serves₁, rep₁⟩ := segment₁.served (by omega) cleared₁ never₁
  obtain ⟨L₂, t₂, serves₂, rep₂⟩ := segment₂.served (by omega) cleared₂ never₂
  have frames : (segment₁.plan (by omega)).frame = (segment₂.plan (by omega)).frame := by
    funext j
    rw [Segment.plan_frame, Segment.plan_frame, placed]
  have low₁ := segment₁.low small₁ serves₁ rep₁.used_le
  have low₂ := segment₂.low small₂ serves₂ rep₂.used_le
  refine ⟨?_, rep₁.mapsExactly low₁ rfl serves₁, rep₂.mapsExactly low₂ rfl serves₂⟩
  have used : L₁.used = L₂.used := by
    rw [frames] at serves₁
    exact Demand.serveAll_used_eq (flatMap_path_congr pages) serves₁ serves₂
  rw [rep₁.newAllocs rfl, rep₂.newAllocs rfl, used, frames]

theorem mapPages_order_lowStart :
    newAllocs lowStart (lowStart.mapPages lowRoot [0x40005123, 0x5000]) =
      newAllocs lowStart (lowStart.mapPages lowRoot [0x5008, 0x40005000, 0x5fff]) ∧
    MapsExactly lowRoot lowStart (lowStart.mapPages lowRoot [0x40005123, 0x5000])
      [0x40005123, 0x5000] ∧
    MapsExactly lowRoot lowStart (lowStart.mapPages lowRoot [0x5008, 0x40005000, 0x5fff])
      [0x5008, 0x40005000, 0x5fff] := by
  refine mapPages_order lowStart lowStart lowStart_segment lowStart_segment
    (startVmm_cleared _ _) (startVmm_cleared _ _) rfl _ _ (by decide) (by decide) ?_
    (lowStart_never ⟨by decide, by decide⟩) (lowStart_never ⟨by decide, by decide⟩)
  intro n
  simp only [List.mem_cons, List.not_mem_nil, or_false, exists_eq_or_imp, exists_eq_left]
  omega

/-! ## A segment that holds the root

The first frame is then `pml4` itself. Its first entry points back to it, so
every table of the first two megabytes is `pml4`. -/

theorem mask_link {f : Nat} (aligned : f % 4096 = 0) (small : f < 4503599627370496) :
    (f + 7) &&& pageAddrMask = f := by
  rw [mask_eq]
  omega

section
variable {s : Vmm} (loop : s.mem.read64 k.pml4 = k.pml4 + 7) (small : k.pml4 < 4503599627370496)
include loop small

theorem enter_loop (again : Vmm → Nat → Option Vmm) (masked : Bool) :
    s.enter again masked k.pml4 0 = some (s, k.pml4) := by
  have aligned := k.aligned
  have on : present (s.mem.read64 (k.pml4 + 8 * 0)) = true := by
    rw [Nat.mul_zero, Nat.add_zero, loop, present_iff]
    omega
  rw [enter_present on, Nat.mul_zero, Nat.add_zero, loop, mask_link aligned small]

theorem mapPageN_loop (fuel : Nat) {a : Nat} (ha : a < 2097152) :
    mapPageN k (fuel + 1) s a = some (s.mapLeaf k.pml4 (ptIdx a) a) := by
  have zero : pml4Idx a = 0 ∧ pdpIdx a = 0 ∧ pdIdx a = 0 := by
    rw [pml4Idx_eq, pdpIdx_eq, pdIdx_eq]
    omega
  rw [mapPageN, mapPageBody, zero.1, zero.2.1, zero.2.2]
  simp only [enter_loop loop small, Option.bind_some]

/-- Page 0 is then translated to `pml4`. -/
theorem translate_loop : translate k s.mem 0 = some k.pml4 := by
  have aligned := k.aligned
  have on : present (k.pml4 + 7) = true := by
    rw [present_iff]
    omega
  have back := mask_link aligned small
  have zero (l : Nat) : index l 0 = 0 := by simp [index_eq]
  have step (l : Nat) (h : tableAt k s.mem 0 l = some k.pml4) :
      tableAt k s.mem 0 (l + 1) = some k.pml4 := by
    rw [tableAt, h, Option.bind_some, zero, Nat.mul_zero, Nat.add_zero, loop]
    simp [on, back]
  rw [translate, leafAt, step 2 (step 1 (step 0 rfl)), Option.bind_some, zero, Nat.mul_zero,
    Nat.add_zero, loop]
  simp [on, back]

end

theorem mapLeaf_mem (s : Vmm) (pt idx a : Nat) :
    s.mapLeaf pt idx a = { s with mem := (s.mapLeaf pt idx a).mem } := by
  unfold mapLeaf
  dsimp only
  split <;> rfl

theorem mapLeaf_loop {s : Vmm} (loop : s.mem.read64 k.pml4 = k.pml4 + 7) (idx a : Nat)
    (hi : 0 < idx) : (s.mapLeaf k.pml4 idx a).mem.read64 k.pml4 = k.pml4 + 7 := by
  unfold mapLeaf
  dsimp only
  split
  · exact loop
  · rw [Mem.read64_write64_ne _ _ (by omega), loop]

/-- The first call, with `pml4` as the next free frame. -/
theorem mapPage_root {s : Vmm} (cleared : Cleared k s) (placed : s.placement = k.pml4)
    (pos : 0 < s.nPages) (small : k.pml4 < 2097152) :
    (s.mapPage k 0).mem.read64 k.pml4 = k.pml4 + 7 ∧
      s.mapPage k 0 = { s.linked k.pml4 with mem := (s.mapPage k 0).mem } := by
  have aligned := k.aligned
  have nonnull := k.nonnull
  have loop : (s.linked k.pml4).mem.read64 k.pml4 = k.pml4 + 7 := by
    rw [linked_entry _ (by omega), placed]
  have off : present (s.mem.read64 (k.pml4 + 8 * 0)) = false := by
    rw [cleared 0 (by omega)]
    exact not_present_zero
  have idx : 0 < ptIdx k.pml4 := by
    rw [ptIdx_eq]
    omega
  -- the nested call maps `pml4` and leaves its first entry
  have after := mapLeaf_loop loop (ptIdx k.pml4) k.pml4 idx
  have again := mapPageN_loop loop (by omega) (s.nPages + 2) small
  generalize hm : (s.linked k.pml4).mapLeaf k.pml4 (ptIdx k.pml4) k.pml4 = m at after again
  have first : s.enter (mapPageN k (s.nPages + 3)) true k.pml4 0 = some (m, k.pml4) := by
    have link := linkTable_pos true (k.pml4 + 8 * 0) pos (by omega) (by omega)
    have nested : mapPageN k (s.nPages + 3) (s.linkTable true (k.pml4 + 8 * 0)).2
        (s.linkTable true (k.pml4 + 8 * 0)).1 = some m := by
      rw [link, placed]
      exact again
    rw [enter_absent off nested, Nat.mul_zero, Nat.add_zero, after, mask_link aligned (by omega)]
  have run := mapPage_run (k := k) s 0
  rw [mapPageN, mapPageBody_zero, first] at run
  simp only [Option.bind_some, enter_loop after (by omega)] at run
  have on : present (m.mem.read64 (k.pml4 + 8 * 0)) = true := by
    rw [Nat.mul_zero, Nat.add_zero, after, present_iff]
    omega
  have same : m.mapLeaf k.pml4 0 0 = m := by
    unfold mapLeaf
    exact if_pos on
  rw [same] at run
  rw [← Option.some.inj run]
  refine ⟨after, ?_⟩
  rw [← hm]
  exact mapLeaf_mem _ _ _ _

/-- The first entry of `pml4` stays through every later call. -/
theorem mapPages_root {s : Vmm} (supply : s.Supply) (cleared : Cleared k s)
    (placed : s.placement = k.pml4) (pos : 0 < s.nPages) (small : k.pml4 < 2097152)
    (as : List Nat) : translate k (s.mapPages k (0 :: as)).mem 0 = some k.pml4 := by
  obtain ⟨loop, fields⟩ := mapPage_root cleared placed pos small
  have aligned := k.aligned
  have nonnull := k.nonnull
  have span := supply pos
  have place : (s.mapPage k 0).placement = k.pml4 + 4096 := by
    rw [fields, linked_placement, placed]
  have count : (s.mapPage k 0).nPages = s.nPages - 1 := congrArg nPages fields
  have later : (s.mapPage k 0).Supply := by
    intro _
    rw [place, count]
    omega
  have kept := (mapPages_keeps (k := k) (w := k.pml4) (by omega) later as).entry (by omega)
    (Or.inr (Or.inl (by omega))) (by rw [loop, present_iff]; omega)
  exact translate_loop (kept.trans loop) (by omega)

/-- Such a run maps page 0 elsewhere. -/
theorem root_moves_page_zero {s : Vmm} (cleared : Cleared k s) (placed : s.placement = k.pml4)
    (pos : 0 < s.nPages) (small : k.pml4 < 2097152) :
    none ∉ newAllocs s (s.mapPages k [0]) ∧ ¬ MapsExactly k s (s.mapPages k [0]) [0] := by
  obtain ⟨loop, fields⟩ := mapPage_root cleared placed pos small
  have new : newAllocs s (s.mapPages k [0]) = [some k.pml4] := by
    refine newAllocs_eq (show (s.mapPage k 0).allocs = [some k.pml4] ++ s.allocs from ?_)
    rw [fields, linked_allocs, placed, List.singleton_append]
  refine ⟨by simp [new], fun exactly => ?_⟩
  have moved : translate k (s.mapPages k [0]).mem 0 = some k.pml4 :=
    translate_loop loop (by omega)
  have same := ((exactly 0 (by omega) k.pml4).mp moved).1
  have nonnull := k.nonnull
  omega

theorem mapPages_order_needs_apart : ∃ (k : Image) (s : Vmm),
    s.placement % 4096 = 0 ∧ s.placement + 4096 * s.nPages ≤ 281474976710656 ∧ Cleared k s ∧
    none ∉ newAllocs s (s.mapPages k [0]) ∧ ¬ MapsExactly k s (s.mapPages k [0]) [0] := by
  obtain ⟨placed, count⟩ := startVmm_one lowRoot (show 0x1000 < 2 ^ 64 by decide)
    (show 16 < 2 ^ 64 by decide) (by decide)
  have cleared := startVmm_cleared (k := lowRoot) (initial (oneSegment 0x1000 16)) oneEntry
  refine ⟨lowRoot, startVmm lowRoot (initial (oneSegment 0x1000 16)) oneEntry, ?_, ?_, cleared,
    root_moves_page_zero cleared placed (by rw [count]; decide) (by decide)⟩
  · rw [placed]
  · rw [placed, count]
    decide

end KessOS.Vmm
