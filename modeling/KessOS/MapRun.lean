import KessOS.MapRefines

/-!
# Runs of map_page

A run serves its addresses one after another, from a cleared `pml4` and a
segment of free frames. `mapPages_serves` is the run lemma; `Served` is what
holds of a run that never ran out.
-/

namespace KessOS.Vmm

open Demand (Ledger Settle Serve ServeAll Fits)

variable {k : Image} {p : Plan}

theorem mapPages_later (s : Vmm) (as : List Nat) : Later k s (s.mapPages k as) := by
  induction as generalizing s with
  | nil => exact Later.refl s
  | cons a as ih => exact (mapPageN_later (mapPage_run s a)).trans (ih (s.mapPage k a))

theorem mapPages_keeps {s : Vmm} {w : Nat} (hw : w % 8 = 0) (supply : s.Supply) (as : List Nat) :
    Keeps w s (s.mapPages k as) := by
  induction as generalizing s with
  | nil => exact Keeps.refl supply
  | cons a as ih =>
    have first := mapPageN_keeps hw supply (mapPage_run (k := k) s a)
    exact first.trans (ih first.supply)

/-- **A run serves its addresses or runs out of frames.** -/
theorem mapPages_serves {s : Vmm} {L : Ledger Slot Nat} {t : Tree} (h : Rep k p s L t)
    (as : List Nat) : Fails k p (as.flatMap path) L s (s.mapPages k as) ∨
      ∃ L' t', ServeAll path p.frame as L L' ∧ Rep k p (s.mapPages k as) L' t' ∧
        Extends L t t' := by
  induction as generalizing s L t with
  | nil => exact Or.inr ⟨L, t, .nil L, h, fun _ _ => rfl⟩
  | cons a as ih =>
    have later := mapPageN_later (mapPage_run (k := k) s a)
    cases h.mapPage a with
    | inl fails =>
      refine Or.inl ⟨fun m hm fits => fails.short m hm (fits.mono fun x hx => ?_), fun all => ?_⟩
      · exact List.mem_append_left _ hx
      · exact (fails.starved all).after (mapPages_later (s.mapPage k a) as)
    | inr found =>
      obtain ⟨L₁, t₁, serve, rep, ext⟩ := found
      cases ih rep with
      | inl fails =>
        refine Or.inl ⟨fun m hm fits => fails.short m hm (serve.fits fits), fun all => ?_⟩
        exact (fails.starved all).before later.allocs
      | inr found =>
        obtain ⟨L₂, t₂, serves, rep₂, ext₂⟩ := found
        refine Or.inr ⟨L₂, t₂, .cons serve serves, rep₂, ext.trans ?_ ext₂⟩
        obtain ⟨_, settle, rfl⟩ := serve
        exact settle.held_mono

/-- What `alloc_page` returned between two states, latest first. -/
def newAllocs (s s' : Vmm) : List (Option Nat) :=
  s'.allocs.take (s'.allocs.length - s.allocs.length)

theorem newAllocs_eq {s s' : Vmm} {new : List (Option Nat)} (h : s'.allocs = new ++ s.allocs) :
    newAllocs s s' = new := by
  rw [newAllocs, h, List.length_append, Nat.add_sub_cancel, List.take_left]

/-! ## The frames a plan hands out -/

theorem Plan.taken_add (p : Plan) (n d : Nat) :
    p.taken (n + d) =
      ((List.range d).map fun j => some (p.frame (n + j))).reverse ++ p.taken n := by
  induction d with
  | zero => rfl
  | succ d ih =>
    rw [← Nat.add_assoc, Plan.taken, ih, List.range_succ, List.map_append, List.reverse_append]
    rfl

theorem Plan.taken_eq (p : Plan) (n : Nat) :
    p.taken n = ((List.range n).map fun j => some (p.frame j)).reverse ++ p.old := by
  simpa [Plan.taken] using p.taken_add 0 n

/-- The frames handed out since the plan began. -/
theorem Rep.newAllocs {s₀ s : Vmm} {L : Ledger Slot Nat} {t : Tree} (h : Rep k p s L t)
    (start : s₀.allocs = p.old ++ p.prior) :
    newAllocs s₀ s = ((List.range L.used).map fun j => some (p.frame j)).reverse := by
  apply newAllocs_eq
  rw [h.log, p.taken_eq, start, List.append_assoc]

theorem Rep.mem_newAllocs {s₀ s : Vmm} {L : Ledger Slot Nat} {t : Tree} (h : Rep k p s L t)
    (start : s₀.allocs = p.old ++ p.prior) (f : Nat) :
    some f ∈ Vmm.newAllocs s₀ s ↔ ∃ j, j < L.used ∧ f = p.frame j := by
  rw [h.newAllocs start]
  simp [eq_comm]

theorem Rep.never_ran_out {s₀ s : Vmm} {L : Ledger Slot Nat} {t : Tree} (h : Rep k p s L t)
    (start : s₀.allocs = p.old ++ p.prior) : none ∉ Vmm.newAllocs s₀ s := by
  rw [h.newAllocs start]
  simp

/-- The record between two states of one plan has no failure. -/
theorem Rep.no_failure {s s' : Vmm} {L L' : Ledger Slot Nat} {t t' : Tree} (h : Rep k p s L t)
    (h' : Rep k p s' L' t') (le : L.used ≤ L'.used) : none ∉ Vmm.newAllocs s s' := by
  have grown : s'.allocs =
      ((List.range (L'.used - L.used)).map fun j => some (p.frame (L.used + j))).reverse ++
        s.allocs := by
    rw [h'.log, h.log, ← List.append_assoc, ← p.taken_add, Nat.add_sub_cancel' le]
  rw [newAllocs_eq grown]
  simp

/-! ## The start -/

/-- No entry of `pml4` is present. -/
def Cleared (k : Image) (s : Vmm) : Prop := ∀ i, i < 512 → s.mem.read64 (k.pml4 + 8 * i) = 0

theorem Cleared.no_table {s : Vmm} (h : Cleared k s) (a : Nat) : tableAt k s.mem a 1 = none := by
  apply tableAt_stop rfl
  rw [h _ (index_lt 0 a)]
  exact not_present_zero

/-- A cleared root with no tables below it. -/
theorem Rep.start {s : Vmm} (cleared : Cleared k s) (placed : s.placement = p.base)
    (total : s.nPages = p.pages) (log : s.allocs = p.old ++ p.prior)
    (apart : ∀ j, j < p.lim → k.pml4 ≠ p.frame j) :
    Rep k p s Ledger.empty ⟨fun _ => k.pml4, fun _ => 0⟩ := by
  have only (x : Slot) (hx : IsTable Ledger.empty x) : x = root := by
    cases hx with
    | inl hx => exact hx
    | inr hx => exact absurd hx (Finset.notMem_empty x)
  have none_held (x : Slot) : x ∉ (Ledger.empty : Ledger Slot Nat).held := Finset.notMem_empty x
  constructor
  case top => rfl
  case shape => exact fun x hx => absurd hx (none_held x)
  case inner => exact fun x hx _ i hi => ⟨fun hc => absurd hc (none_held _), fun _ => cleared i hi⟩
  case leaves => exact fun q hq => absurd hq (none_held _)
  case word => exact fun n hn => absurd rfl hn
  case mapped => exact fun a ha => absurd ha (Set.notMem_empty a)
  case page => exact fun x hx => absurd hx (none_held x)
  case handed => exact fun x hx => absurd hx (none_held x)
  case inj =>
    intro x y hx hy _
    rw [only x hx, only y hy]
  case placed => simp [placed, Plan.frame, Ledger.empty]
  case total => simp [total, Ledger.empty]
  case fresh => exact fun x _ j _ hj => apart j hj
  case log => exact log

/-- The free frames are whole pages below `top`, and none of them is `pml4`. -/
structure Segment (k : Image) (top : Nat) (s : Vmm) : Prop where
  aligned : s.placement % 4096 = 0
  below : s.placement + 4096 * s.nPages ≤ top
  apart : k.pml4 < s.placement ∨ s.placement + 4096 * s.nPages ≤ k.pml4

theorem startVmm_cleared (s : Vmm) (meminfo : Meminfo) : Cleared k (s.startVmm k meminfo) := by
  intro i hi
  have aligned := k.aligned
  have word := k.word
  simp only [startVmm]
  rw [memzero_eq_fill _ (by omega) (by omega)]
  exact Mem.readLE_fill_zero _ (by omega)

/-- The plan that gives out a whole segment. -/
def Segment.plan {top : Nat} {s : Vmm} (h : Segment k top s) (low : top ≤ 4503599627370496) :
    Plan :=
  .whole s [] s.allocs fun _ => ⟨h.aligned, Nat.le_trans h.below low⟩

theorem Segment.plan_frame {top : Nat} {s : Vmm} (h : Segment k top s)
    (low : top ≤ 4503599627370496) (j : Nat) : (h.plan low).frame j = s.placement + 4096 * j := rfl

theorem Segment.rep {top : Nat} {s : Vmm} (h : Segment k top s) (low : top ≤ 4503599627370496)
    (cleared : Cleared k s) : Rep k (h.plan low) s Ledger.empty
      ⟨fun _ => k.pml4, fun _ => 0⟩ := by
  apply Rep.start cleared rfl rfl rfl
  intro j hj
  have lim : j < s.nPages := hj
  have apart := h.apart
  show k.pml4 ≠ s.placement + 4096 * j
  omega

/-- Booting with a single usable segment. -/
theorem startVmm_one (k : Image) {base pages : Nat} (hb : base < 2 ^ 64) (hp : pages < 2 ^ 64)
    (pos : 0 < pages) :
    (startVmm k (initial (oneSegment base pages)) oneEntry).placement = base ∧
      (startVmm k (initial (oneSegment base pages)) oneEntry).nPages = pages := by
  have chosen := largestSegment_one hb hp pos (initial (oneSegment base pages)).biggestSegment
  simp only [startVmm, setPlacement, initial] at chosen ⊢
  rw [nPages, chosen]
  exact ⟨rfl, rfl⟩

theorem segment_one {k : Image} {base pages top : Nat} (aligned : base % 4096 = 0)
    (below : base + 4096 * pages ≤ top) (small : top ≤ 2 ^ 52) (pos : 0 < pages)
    (apart : k.pml4 < base ∨ base + 4096 * pages ≤ k.pml4) :
    Segment k top (startVmm k (initial (oneSegment base pages)) oneEntry) := by
  obtain ⟨placed, count⟩ := startVmm_one k (show base < 2 ^ 64 by omega)
    (show pages < 2 ^ 64 by omega) pos
  generalize startVmm k (initial (oneSegment base pages)) oneEntry = s at placed count ⊢
  subst placed count
  exact ⟨aligned, below, apart⟩

/-- A root in the second page of memory. -/
def lowRoot : Image := ⟨0x1000, by decide, by decide, by decide⟩

end KessOS.Vmm
