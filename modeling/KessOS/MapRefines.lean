import KessOS.PageTree

/-!
# map_page serves addresses from the free frames

`mapPageN_serves`: from a memory that holds a tree, a call either serves the
address in the sense of `Demand.Serve`, and memory holds the grown tree, or the
reserved frames cannot cover what the address asks for. When all frames there
are were reserved, the second case means that `alloc_page` ran out and, page 0
being no table, that the tree now has a link to page 0.
-/

namespace KessOS.Vmm

open Demand (Ledger Settle Serve Fits)

variable {k : Image}

/-! ## Links that stay -/

theorem tableAt_succ {m : Mem} {a l f : Nat} (h : tableAt k m a (l + 1) = some f) :
    ∃ g, tableAt k m a l = some g ∧ present (m.read64 (g + 8 * index l a)) = true ∧
      f = m.read64 (g + 8 * index l a) &&& pageAddrMask := by
  obtain ⟨g, hg, h⟩ := Option.bind_eq_some_iff.mp h
  dsimp only at h
  split at h
  · next on => exact ⟨g, hg, on, (Option.some.inj h).symm⟩
  · cases h

theorem tableAt_step {m : Mem} {a l f : Nat} (h : tableAt k m a l = some f)
    (on : present (m.read64 (f + 8 * index l a)) = true) :
    tableAt k m a (l + 1) = some (m.read64 (f + 8 * index l a) &&& pageAddrMask) := by
  rw [tableAt, h, Option.bind_some]
  exact if_pos on

theorem tableAt_stop {m : Mem} {a l f : Nat} (h : tableAt k m a l = some f)
    (off : present (m.read64 (f + 8 * index l a)) = false) : tableAt k m a (l + 1) = none := by
  rw [tableAt, h, Option.bind_some]
  simp [off]

theorem tableAt_aligned {m : Mem} {a : Nat} : ∀ {l f : Nat}, tableAt k m a l = some f →
    f % 4096 = 0
  | 0, f, h => by
    obtain rfl : k.pml4 = f := Option.some.inj h
    exact k.aligned
  | l + 1, f, h => by
    obtain ⟨g, _, _, rfl⟩ := tableAt_succ h
    exact mask_aligned _

/-- Memories that agree on the present entries of a walk have the same walk. -/
theorem tableAt_keeps {m m' : Mem} {a : Nat} : ∀ {l f : Nat}, tableAt k m a l = some f →
    (∀ j, j < l → ∀ g, tableAt k m a j = some g → present (m.read64 (g + 8 * index j a)) = true →
      m'.read64 (g + 8 * index j a) = m.read64 (g + 8 * index j a)) →
    tableAt k m' a l = some f := by
  intro l
  induction l with
  | zero => exact fun h _ => h
  | succ l ih =>
    intro f h same
    obtain ⟨g, hg, on, rfl⟩ := tableAt_succ h
    have up := ih hg fun j hj => same j (by omega)
    have entry := same l (by omega) g hg on
    have next := tableAt_step up (by rw [entry]; exact on)
    rwa [entry] at next

/-- A table entry links page 0, no table above that entry is page 0, and no
frame is left. -/
structure NullLinked (k : Image) (s : Vmm) : Prop where
  empty : s.nPages = 0
  reach : ∃ a l, l < 3 ∧ tableAt k s.mem a (l + 1) = some 0 ∧
    ∀ j, j ≤ l → ∃ f, tableAt k s.mem a j = some f ∧ f ≠ 0

theorem NullLinked.keeps {s s' : Vmm} (h : NullLinked k s) (empty : s'.nPages = 0)
    (same : ∀ w, w % 8 = 0 → 4096 ≤ w → present (s.mem.read64 w) = true →
      s'.mem.read64 w = s.mem.read64 w) : NullLinked k s' := by
  obtain ⟨a, l, hl, null, above⟩ := h.reach
  have entry (j : Nat) (hj : j ≤ l) (g : Nat) (hg : tableAt k s.mem a j = some g)
      (on : present (s.mem.read64 (g + 8 * index j a)) = true) :
      s'.mem.read64 (g + 8 * index j a) = s.mem.read64 (g + 8 * index j a) := by
    obtain ⟨f, hf, ne⟩ := above j hj
    obtain rfl : f = g := Option.some.inj (hf.symm.trans hg)
    have := tableAt_aligned hf
    exact same _ (by omega) (by omega) on
  refine ⟨empty, a, l, hl, tableAt_keeps null fun j hj => entry j (by omega), ?_⟩
  intro j hj
  obtain ⟨f, hf, ne⟩ := above j hj
  exact ⟨f, tableAt_keeps hf fun i hi => entry i (by omega), ne⟩

/-- What every later step respects: the record of allocations grows, and a
link to page 0 stays. -/
structure Later (k : Image) (s s' : Vmm) : Prop where
  allocs : ∃ new, s'.allocs = new ++ s.allocs
  linked : NullLinked k s → NullLinked k s'

theorem Later.refl (s : Vmm) : Later k s s := ⟨⟨[], rfl⟩, id⟩

theorem Later.trans {s t u : Vmm} (h₁ : Later k s t) (h₂ : Later k t u) : Later k s u := by
  obtain ⟨n₁, e₁⟩ := h₁.allocs
  obtain ⟨n₂, e₂⟩ := h₂.allocs
  exact ⟨⟨n₂ ++ n₁, by rw [e₂, e₁, List.append_assoc]⟩, fun h => h₂.linked (h₁.linked h)⟩

theorem Later.link (s : Vmm) (masked : Bool) (entry : Nat) (he : entry % 8 = 0)
    (absent : present (s.mem.read64 entry) = false) : Later k s (s.linkTable masked entry).2 := by
  constructor
  · by_cases h : s.nPages = 0
    · rw [linkTable_none masked entry h]
      exact ⟨[none], rfl⟩
    · exact ⟨[some s.placement], by simp [linkTable, allocPage, h]⟩
  · intro h
    rw [linkTable_none masked entry h.empty]
    exact h.keeps h.empty fun w hw high on => linkedNull_keeps he hw high on absent

theorem Later.leaf (s : Vmm) (entry v : Nat) (he : entry % 8 = 0)
    (absent : present (s.mem.read64 entry) = false) :
    Later k s { s with mem := s.mem.write64 entry (v &&& pageAddrMask ||| flags) } := by
  refine ⟨⟨[], rfl⟩, fun h => h.keeps h.empty ?_⟩
  intro w hw _ on
  have ne : w ≠ entry := by rintro rfl; simp [absent] at on
  exact Mem.read64_write64_ne _ _ (by omega)

theorem mapPageN_later {fuel : Nat} {s s' : Vmm} {a : Nat} (h : mapPageN k fuel s a = some s') :
    Later k s s' :=
  mapPageN_run Later.refl Later.trans Later.link Later.leaf h

theorem enter_later {fuel : Nat} {masked : Bool} {table idx : Nat} {s : Vmm} {r : Vmm × Nat}
    (ht : table % 8 = 0) (h : s.enter (mapPageN k fuel) masked table idx = some r) :
    Later k s r.1 :=
  enter_run Later.refl Later.trans Later.link mapPageN_later ht h

/-- `alloc_page` ran out between `s` and `s'`. -/
structure Starved (k : Image) (s s' : Vmm) : Prop where
  ran_out : ∃ new, s'.allocs = new ++ s.allocs ∧ none ∈ new
  linked : some 0 ∉ s'.allocs → NullLinked k s'

theorem Starved.after {s t u : Vmm} (h : Starved k s t) (later : Later k t u) : Starved k s u := by
  obtain ⟨n₁, e₁, out⟩ := h.ran_out
  obtain ⟨n₂, e₂⟩ := later.allocs
  refine ⟨⟨n₂ ++ n₁, by rw [e₂, e₁, List.append_assoc], List.mem_append_right _ out⟩, ?_⟩
  intro clean
  refine later.linked (h.linked fun zero => clean ?_)
  rw [e₂]
  exact List.mem_append_right _ zero

theorem Starved.before {s t u : Vmm} (later : ∃ new, t.allocs = new ++ s.allocs)
    (h : Starved k t u) : Starved k s u := by
  obtain ⟨n₁, e₁⟩ := later
  obtain ⟨n₂, e₂, out⟩ := h.ran_out
  exact ⟨⟨n₂ ++ n₁, by rw [e₂, e₁, List.append_assoc], List.mem_append_left _ out⟩, h.linked⟩

/-! ## One level -/

variable {p : Plan}

/-- The frames reserved are too few for the slots `xs`; if they were all the
frames there are, the allocator ran out. -/
structure Fails (k : Image) (p : Plan) (xs : List Slot) (L : Ledger Slot Nat) (s s' : Vmm) :
    Prop where
  short : ∀ m, m ≤ p.lim → ¬ Fits path p.frame m xs L
  starved : p.lim = p.pages → Starved k s s'

/-- What a call on `a` from the tree `t` does. -/
def Outcome (k : Image) (p : Plan) (a : Nat) (L : Ledger Slot Nat) (t : Tree) (s s' : Vmm) : Prop :=
  Fails k p (path a) L s s' ∨
    ∃ L' t', Serve path p.frame a L L' ∧ Rep k p s' L' t' ∧ Extends L t t'

theorem Rep.above (h : Rep k p s L t) {l a : Nat} (hl : l ≤ 3) (hx : IsTable L (slot l a)) :
    ∀ j, j ≤ l → IsTable L (slot j a) := by
  induction l with
  | zero =>
    intro j hj
    obtain rfl : j = 0 := by omega
    exact hx
  | succ l ih =>
    intro j hj
    by_cases last : j = l + 1
    · exact last ▸ hx
    · rw [slot_succ_table, slot_succ (by omega)] at hx
      exact ih (by omega) (h.parent (index_lt l a) hx) j (by omega)

/-- Linking page 0 into a tree of other tables. -/
theorem Rep.null_linked {s : Vmm} {L : Ledger Slot Nat} {t : Tree} (h : Rep k p s L t)
    (empty : s.nPages = 0) {l a : Nat} (hl : l < 3) (hx : IsTable L (slot l a))
    (absent : present (s.mem.read64 (t.frame (slot l a) + 8 * index l a)) = false)
    (clean : some 0 ∉ s.allocs) :
    NullLinked k (s.linkedNull (t.frame (slot l a) + 8 * index l a)) := by
  have aligned := h.aligned hx
  have nonzero (x : Slot) (hx : IsTable L x) : t.frame x ≠ 0 := by
    rcases hx with rfl | hx
    · rw [h.top]
      exact k.nonnull.ne'
    · intro zero
      have := h.handed x hx
      rw [zero] at this
      exact clean (h.log ▸ List.mem_append_left _ this)
  have walk (j : Nat) (hj : j ≤ l) : tableAt k s.mem a j = some (t.frame (slot j a)) :=
    (h.tableAt_eq a j (by omega)).1 (h.above (by omega) hx j hj)
  have entry (j : Nat) (hj : j < l) (g : Nat) (hg : tableAt k s.mem a j = some g)
      (on : present (s.mem.read64 (g + 8 * index j a)) = true) :
      (s.linkedNull (t.frame (slot l a) + 8 * index l a)).mem.read64 (g + 8 * index j a) =
        s.mem.read64 (g + 8 * index j a) := by
    obtain rfl : t.frame (slot j a) = g := Option.some.inj ((walk j (by omega)).symm.trans hg)
    have above := h.above (by omega) hx j (by omega)
    have := h.aligned above
    have := nonzero _ above
    exact linkedNull_keeps (by omega) (by omega) (by omega) on absent
  have kept (j : Nat) (hj : j ≤ l) := tableAt_keeps (walk j hj) fun i hi => entry i (by omega)
  refine ⟨empty, a, l, hl, ?_, ?_⟩
  · rw [tableAt, kept l (Nat.le_refl l), Option.bind_some, linkedNull_entry]
    decide
  · intro j hj
    exact ⟨_, kept j hj, nonzero _ (h.above (by omega) hx j hj)⟩

/-- Without a free frame a missing table is `NULL`. -/
theorem enter_starved {fuel : Nat} {s : Vmm} {L : Ledger Slot Nat} {t : Tree}
    (h : Rep k p s L t) {l a : Nat} (hl : l < 3) (hx : IsTable L (slot l a))
    (absent : child (slot l a) (index l a) ∉ L.held) (empty : s.nPages = 0)
    {masked : Bool} {s' : Vmm}
    (run : mapPageN k fuel (s.linkTable masked (t.frame (slot l a) + 8 * index l a)).2
      (s.linkTable masked (t.frame (slot l a) + 8 * index l a)).1 = some s') :
    Starved k s s' := by
  rw [linkTable_none masked _ empty] at run
  have later := mapPageN_later run
  refine Starved.after ⟨⟨[none], rfl, List.mem_singleton_self none⟩, fun clean => ?_⟩ later
  refine h.null_linked empty hl hx ?_ fun zero => clean (List.mem_cons_of_mem _ zero)
  have off := (h.present_iff hx (show l < 3 from hl) (index_lt l a)).not.mpr absent
  simpa using off

section
variable {fuel : Nat} (ih : ∀ {s s' : Vmm} {L : Ledger Slot Nat} {t : Tree} {a : Nat},
  Rep k p s L t → mapPageN k fuel s a = some s' → Outcome k p a L t s s')
include ih

/-- A missing table is linked while frames are left. -/
theorem enter_linked {s : Vmm} {L : Ledger Slot Nat} {t : Tree} (h : Rep k p s L t) {l a : Nat}
    (hl : l < 3) (hx : IsTable L (slot l a)) (absent : child (slot l a) (index l a) ∉ L.held)
    (room : L.used < p.lim) {masked : Bool} {s' : Vmm}
    (run : mapPageN k fuel (s.linkTable masked (t.frame (slot l a) + 8 * index l a)).2
      (s.linkTable masked (t.frame (slot l a) + 8 * index l a)).1 = some s') :
    Fails k p [slot (l + 1) a] L s s' ∨
      ∃ L' t', Settle path p.frame [slot (l + 1) a] L L' ∧ Rep k p s' L' t' ∧ Extends L t t' := by
  have within := p.within
  have total := h.total
  obtain ⟨base, top⟩ := p.span (by omega)
  have placed : s.placement = p.base + 4096 * L.used := h.placed
  rw [linkTable_pos masked _ (by omega) (by omega) (by omega)] at run
  rw [slot_succ hl]
  cases ih (h.linked hx hl (index_lt l a) absent room) run with
  | inl fails =>
    refine Or.inl ⟨fun m hm fits => ?_, fun all => (fails.starved all).before ⟨[_], rfl⟩⟩
    obtain ⟨_, step⟩ := Fits.take fits absent
    apply fails.short m hm
    rw [h.placed]
    exact step.mono fun x hx => List.mem_append_left _ hx
  | inr found =>
    obtain ⟨L', t', serve, rep, ext⟩ := found
    obtain ⟨L₁, settle, rfl⟩ := serve
    rw [h.placed] at settle rep
    refine Or.inr ⟨_, t', .take absent settle (.done _), rep, ?_⟩
    intro x known
    rw [ext x (isTable_take.mpr (Or.inl known)), graft_other]
    rintro rfl
    cases known with
    | inl known => exact child_ne_root _ _ known
    | inr known => exact absent known

/-- One level settles the slot below it. -/
theorem enter_serves {s : Vmm} {L : Ledger Slot Nat} {t : Tree} (h : Rep k p s L t) {l a : Nat}
    (hl : l < 3) (hx : IsTable L (slot l a)) {masked : Bool} {r : Vmm × Nat}
    (run : s.enter (mapPageN k fuel) masked (t.frame (slot l a)) (index l a) = some r) :
    Fails k p [slot (l + 1) a] L s r.1 ∨
      ∃ L' t', Settle path p.frame [slot (l + 1) a] L L' ∧ Rep k p r.1 L' t' ∧ Extends L t t' ∧
        r.2 = t'.frame (slot (l + 1) a) := by
  have link := h.present_iff hx (show l < 3 from hl) (index_lt l a)
  obtain ⟨next, ⟨there, same⟩ | ⟨gone, run⟩⟩ := enter_cases run
  · have held := link.mp there
    refine Or.inr ⟨L, t, .skip (slot_succ hl a ▸ held) (.done L), same ▸ h, fun _ _ => rfl, ?_⟩
    rw [next, same, slot_succ hl]
    exact h.next_table hx (show l < 3 from hl) (index_lt l a) held
  · have absent : child (slot l a) (index l a) ∉ L.held := by
      intro held
      rw [link.mpr held] at gone
      cases gone
    by_cases room : L.used < p.lim
    · cases enter_linked ih h hl hx absent room run with
      | inl fails => exact Or.inl fails
      | inr found =>
        obtain ⟨L', t', settle, rep, ext⟩ := found
        have held : slot (l + 1) a ∈ L'.held := settle.covers _ (List.mem_singleton_self _)
        refine Or.inr ⟨L', t', settle, rep, ext, ?_⟩
        rw [slot_succ hl] at held ⊢
        rw [next, ← ext _ hx]
        exact rep.next_table (rep.parent (index_lt l a) held) (show l < 3 from hl)
          (index_lt l a) held
    · refine Or.inl ⟨fun m hm fits => ?_, fun all => ?_⟩
      · rw [slot_succ hl] at fits
        have := (Fits.take fits absent).1
        omega
      · have total := h.total
        exact enter_starved h hl hx absent (by omega) run

end

/-! ## A whole call -/

/-- A level that fails is the failure of the whole path. -/
theorem Fails.whole {xs rest : List Slot} {x : Slot} {L L₁ : Ledger Slot Nat} {s s₁ s₂ s' : Vmm}
    (fails : Fails k p [x] L₁ s₁ s₂) (settle : Settle path p.frame xs L L₁)
    (before : Later k s s₁) (after : Later k s₂ s') : Fails k p (xs ++ x :: rest) L s s' := by
  refine ⟨fun m hm fits => ?_, fun all => ?_⟩
  · refine fails.short m hm ((settle.fits fits).mono fun y hy => ?_)
    rw [List.mem_singleton.mp hy]
    exact List.mem_cons_self
  · exact ((fails.starved all).after after).before before.allocs

theorem Extends.trans {L L' : Ledger Slot Nat} {t t' t'' : Tree} (h : Extends L t t')
    (mono : L.held ⊆ L'.held) (h' : Extends L' t' t'') : Extends L t t'' := by
  intro x hx
  rw [h' x (hx.imp_right fun held => mono held), h x hx]

/-- **A call serves its address or runs out of frames.** -/
theorem mapPageN_serves : ∀ {fuel : Nat} {s s' : Vmm} {L : Ledger Slot Nat} {t : Tree} {a : Nat},
    Rep k p s L t → mapPageN k fuel s a = some s' → Outcome k p a L t s s' := by
  intro fuel
  induction fuel with
  | zero => intro s s' L t a _ run; cases run
  | succ fuel ih =>
    intro s s' L t a h run
    obtain ⟨r₁, r₂, r₃, e₁, e₂, e₃, rfl⟩ := mapPageBody_cases run
    have root := k.aligned
    have a₁ := enter_aligned e₁
    have a₂ := enter_aligned e₂
    have a₃ := enter_aligned e₃
    have l₁ : Later k s r₁.1 := enter_later (by omega) e₁
    have l₂ : Later k r₁.1 r₂.1 := enter_later (by omega) e₂
    have l₃ : Later k r₂.1 r₃.1 := enter_later (by omega) e₃
    have l₄ : Later k r₃.1 (r₃.1.mapLeaf r₃.2 (ptIdx a) a) :=
      mapLeaf_run Later.refl Later.leaf (by omega) (ptIdx a) a
    -- the first table
    have top : IsTable L (slot 0 a) := Or.inl (slot_zero a)
    rw [show k.pml4 = t.frame (slot 0 a) by rw [slot_zero, h.top]] at e₁
    rcases enter_serves ih h (by omega) top e₁ with fails | ⟨L₁, t₁, s₁, rep₁, x₁, f₁⟩
    · exact Or.inl (fails.whole (.done L) (Later.refl s) (l₂.trans (l₃.trans l₄)))
    -- the second
    have held₁ := s₁.covers _ (List.mem_singleton_self _)
    rw [f₁] at e₂
    rcases enter_serves ih rep₁ (by omega) (Or.inr held₁) e₂ with
      fails | ⟨L₂, t₂, s₂, rep₂, x₂, f₂⟩
    · exact Or.inl (fails.whole s₁ l₁ (l₃.trans l₄))
    -- the third
    have held₂ := s₂.covers _ (List.mem_singleton_self _)
    rw [f₂] at e₃
    rcases enter_serves ih rep₂ (by omega) (Or.inr held₂) e₃ with
      fails | ⟨L₃, t₃, s₃, rep₃, x₃, f₃⟩
    · exact Or.inl (fails.whole (s₁.append s₂) (l₁.trans l₂) l₄)
    have held₃ := s₃.covers _ (List.mem_singleton_self _)
    rw [f₃]
    obtain ⟨t', rep, same⟩ := rep₃.mapLeaf held₃
    have path_settled := (s₁.append s₂).append s₃
    refine Or.inr ⟨L₃.visit a, t', ⟨L₃, path_settled, rfl⟩, rep, ?_⟩
    have grown := (x₁.trans s₁.held_mono x₂).trans (s₁.append s₂).held_mono x₃
    intro x hx
    rw [same, grown x hx]

theorem Rep.mapPage {s : Vmm} {L : Ledger Slot Nat} {t : Tree} (h : Rep k p s L t) (a : Nat) :
    Outcome k p a L t s (s.mapPage k a) :=
  mapPageN_serves h (mapPage_run s a)

end KessOS.Vmm
