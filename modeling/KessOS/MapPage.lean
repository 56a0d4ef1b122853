import KessOS.Vmm

/-!
# Runs of map_page

* `mapPageN_run`: what one linked table and one leaf entry preserve, a whole
  call preserves, however deep it recurses;
* `mapPageN_keeps`: present entries outside page 0 and the free frames stay;
* `dry_total`: with no frame left the call on page 0 ends after three levels of
  recursion, in any memory;
* `mapPageN_total`: a call always returns, with fuel four above the free frames.
-/

namespace KessOS.Vmm

variable {k : Image}

/-! ## One step at a time -/

/-- Everything one level can do. -/
theorem enter_cases {again : Vmm → Nat → Option Vmm} {masked : Bool} {table idx : Nat} {s : Vmm}
    {r : Vmm × Nat} (h : s.enter again masked table idx = some r) :
    r.2 = r.1.mem.read64 (table + 8 * idx) &&& pageAddrMask ∧
    ((present (s.mem.read64 (table + 8 * idx)) = true ∧ r.1 = s) ∨
      (present (s.mem.read64 (table + 8 * idx)) = false ∧
        again (s.linkTable masked (table + 8 * idx)).2
          (s.linkTable masked (table + 8 * idx)).1 = some r.1)) := by
  obtain ⟨s', next, rfl⟩ := Option.map_eq_some_iff.mp h
  refine ⟨rfl, ?_⟩
  cases hp : present (s.mem.read64 (table + 8 * idx)) with
  | true =>
    rw [if_pos hp] at next
    exact Or.inl ⟨rfl, (Option.some.inj next).symm⟩
  | false =>
    rw [if_neg (by simp [hp])] at next
    exact Or.inr ⟨rfl, next⟩

theorem enter_present {again : Vmm → Nat → Option Vmm} {masked : Bool} {table idx : Nat} {s : Vmm}
    (h : present (s.mem.read64 (table + 8 * idx)) = true) :
    s.enter again masked table idx =
      some (s, s.mem.read64 (table + 8 * idx) &&& pageAddrMask) := by
  simp only [enter, h, ↓reduceIte, Option.map_some]

theorem enter_absent {again : Vmm → Nat → Option Vmm} {masked : Bool} {table idx : Nat}
    {s s' : Vmm} (h : present (s.mem.read64 (table + 8 * idx)) = false)
    (next : again (s.linkTable masked (table + 8 * idx)).2
      (s.linkTable masked (table + 8 * idx)).1 = some s') :
    s.enter again masked table idx =
      some (s', s'.mem.read64 (table + 8 * idx) &&& pageAddrMask) := by
  simp only [enter, h, Bool.false_eq_true, ↓reduceIte, next, Option.map_some]

theorem mapPageBody_cases {again : Vmm → Nat → Option Vmm} {s s' : Vmm} {a : Nat}
    (h : s.mapPageBody k again a = some s') :
    ∃ r₁ r₂ r₃, s.enter again true k.pml4 (pml4Idx a) = some r₁ ∧
      r₁.1.enter again false r₁.2 (pdpIdx a) = some r₂ ∧
      r₂.1.enter again false r₂.2 (pdIdx a) = some r₃ ∧
      s' = r₃.1.mapLeaf r₃.2 (ptIdx a) a := by
  obtain ⟨r₁, e₁, h⟩ := Option.bind_eq_some_iff.mp h
  obtain ⟨r₂, e₂, h⟩ := Option.bind_eq_some_iff.mp h
  obtain ⟨r₃, e₃, h⟩ := Option.bind_eq_some_iff.mp h
  exact ⟨r₁, r₂, r₃, e₁, e₂, e₃, (Option.some.inj h).symm⟩

theorem enter_aligned {again : Vmm → Nat → Option Vmm} {masked : Bool} {table idx : Nat} {s : Vmm}
    {r : Vmm × Nat} (h : s.enter again masked table idx = some r) : r.2 % 4096 = 0 := by
  rw [(enter_cases h).1]
  exact mask_aligned _

section
variable {R : Vmm → Vmm → Prop} (refl : ∀ s, R s s) (trans : ∀ {s t u}, R s t → R t u → R s u)
  (link : ∀ (s : Vmm) (masked : Bool) (entry : Nat), entry % 8 = 0 →
    present (s.mem.read64 entry) = false → R s (s.linkTable masked entry).2)
  (leaf : ∀ (s : Vmm) (entry v : Nat), entry % 8 = 0 → present (s.mem.read64 entry) = false →
    R s { s with mem := s.mem.write64 entry (v &&& pageAddrMask ||| flags) })

include refl leaf in
theorem mapLeaf_run {s : Vmm} {pt : Nat} (ht : pt % 8 = 0) (idx a : Nat) :
    R s (s.mapLeaf pt idx a) := by
  unfold mapLeaf
  dsimp only
  split
  · exact refl _
  · next absent => exact leaf _ _ _ (by omega) (by simpa using absent)

include refl trans link in
theorem enter_run {again : Vmm → Nat → Option Vmm}
    (ih : ∀ {s s' : Vmm} {a : Nat}, again s a = some s' → R s s') {masked : Bool}
    {table idx : Nat} {s : Vmm} {r : Vmm × Nat} (ht : table % 8 = 0)
    (h : s.enter again masked table idx = some r) : R s r.1 := by
  obtain ⟨-, ⟨_, same⟩ | ⟨absent, next⟩⟩ := enter_cases h
  · exact same ▸ refl s
  · exact trans (link s masked _ (by omega) absent) (ih next)

include refl trans link leaf in
/-- The induction rule of `map_page`: a relation that every table link and
every leaf entry respects relates the states around a whole call. -/
theorem mapPageN_run : ∀ {fuel : Nat} {s s' : Vmm} {a : Nat},
    mapPageN k fuel s a = some s' → R s s' := by
  intro fuel
  induction fuel with
  | zero => intro s s' a h; cases h
  | succ fuel ih =>
    intro s s' a h
    obtain ⟨r₁, r₂, r₃, e₁, e₂, e₃, rfl⟩ := mapPageBody_cases h
    have a₁ := enter_aligned e₁
    have a₂ := enter_aligned e₂
    have a₃ := enter_aligned e₃
    have root := k.aligned
    have first := enter_run refl trans link ih (by omega) e₁
    have second := enter_run refl trans link ih (by omega) e₂
    have third := enter_run refl trans link ih (by omega) e₃
    have last := mapLeaf_run refl leaf (s := r₃.1)
      (show r₃.2 % 8 = 0 by omega) (ptIdx a) a
    exact trans first (trans second (trans third last))

end

/-! ## What the allocator and a link do -/

theorem allocPage_none {s : Vmm} (h : s.nPages = 0) :
    s.allocPage = (0, { s with allocs := none :: s.allocs }) := by
  simp only [allocPage, h, ↓reduceIte]

/-- The free frames are whole pages of physical memory. -/
def Supply (s : Vmm) : Prop :=
  0 < s.nPages → s.placement % 4096 = 0 ∧ s.placement + 4096 * s.nPages ≤ 4503599627370496

/-- The next frame, cleared, and its entry. -/
def linked (s : Vmm) (entry : Nat) : Vmm where
  mem := (s.mem.fill s.placement 4096 0).write64 entry (s.placement + 7)
  placement := s.placement + 4096
  biggestSegment := { s.biggestSegment with nPages := s.nPages - 1 }
  allocs := some s.placement :: s.allocs

/-- What `NULL` from the allocator leads to: page 0 is cleared and linked. -/
def linkedNull (s : Vmm) (entry : Nat) : Vmm :=
  { s with
    mem := (s.mem.fill 0 4096 0).write64 entry 7
    allocs := none :: s.allocs }

@[simp] theorem linked_nPages (s : Vmm) (e : Nat) : (s.linked e).nPages = s.nPages - 1 := rfl
@[simp] theorem linked_placement (s : Vmm) (e : Nat) :
    (s.linked e).placement = s.placement + 4096 := rfl
@[simp] theorem linked_allocs (s : Vmm) (e : Nat) :
    (s.linked e).allocs = some s.placement :: s.allocs := rfl
@[simp] theorem linkedNull_nPages (s : Vmm) (e : Nat) : (s.linkedNull e).nPages = s.nPages := rfl
@[simp] theorem linkedNull_allocs (s : Vmm) (e : Nat) :
    (s.linkedNull e).allocs = none :: s.allocs := rfl

theorem linkTable_pos {s : Vmm} (masked : Bool) (entry : Nat) (pos : 0 < s.nPages)
    (aligned : s.placement % 4096 = 0) (top : s.placement + 4096 ≤ 4503599627370496) :
    s.linkTable masked entry = (s.placement, s.linked entry) := by
  have keep : s.placement &&& pageAddrMask = s.placement := mask_page aligned (by omega)
  have cleared : clearAddr masked s.placement = s.placement := by
    cases masked
    · rfl
    · exact keep
  have some_left : ¬ s.nPages = 0 := by omega
  have no_wrap : (s.placement + 4096) % 18446744073709551616 = s.placement + 4096 := by omega
  have value : s.placement &&& pageAddrMask ||| flags = s.placement + 7 := by
    rw [entry_eq, keep]
  simp only [linkTable, allocPage, some_left, ↓reduceIte, cleared, no_wrap, value, linked]
  rw [memzero_eq_fill _ (by omega) (by omega)]

theorem linkTable_none {s : Vmm} (masked : Bool) (entry : Nat) (h : s.nPages = 0) :
    s.linkTable masked entry = (0, s.linkedNull entry) := by
  have cleared : clearAddr masked 0 = 0 := by cases masked <;> decide
  have value : 0 &&& pageAddrMask ||| flags = 7 := by decide
  simp only [linkTable, allocPage_none h, cleared, value, linkedNull]
  rw [memzero_eq_fill _ (by omega) (by omega)]

theorem linkTable_nPages (s : Vmm) (masked : Bool) (entry : Nat) :
    (s.linkTable masked entry).2.nPages = s.nPages - 1 := by
  by_cases h : s.nPages = 0
  · rw [linkTable_none masked entry h, linkedNull_nPages]
    omega
  · simp [linkTable, allocPage, h]

theorem linkedNull_entry (s : Vmm) (entry : Nat) : (s.linkedNull entry).mem.read64 entry = 7 :=
  Mem.read64_write64 _ _ (by omega)

theorem linkedNull_read (s : Vmm) {entry w : Nat} (he : entry % 8 = 0) (hw : w % 8 = 0)
    (ne : w ≠ entry) :
    (s.linkedNull entry).mem.read64 w = if w < 4096 then 0 else s.mem.read64 w := by
  have apart : w + 8 ≤ entry ∨ entry + 8 ≤ w := by omega
  simp only [linkedNull]
  rw [Mem.read64_write64_ne _ _ apart]
  split
  · exact Mem.readLE_fill_zero _ (by omega)
  · exact Mem.readLE_blit_outside _ _ (by omega)

theorem linked_entry {s : Vmm} (entry : Nat) (top : s.placement + 4096 ≤ 4503599627370496) :
    (s.linked entry).mem.read64 entry = s.placement + 7 :=
  Mem.read64_write64 _ _ (by omega)

theorem linked_fresh (s : Vmm) {entry w : Nat} (apart : w + 8 ≤ entry ∨ entry + 8 ≤ w)
    (inside : s.placement ≤ w ∧ w + 8 ≤ s.placement + 4096) :
    (s.linked entry).mem.read64 w = 0 := by
  simp only [linked]
  rw [Mem.read64_write64_ne _ _ apart]
  exact Mem.readLE_fill_zero _ inside

theorem linked_other (s : Vmm) {entry w : Nat} (apart : w + 8 ≤ entry ∨ entry + 8 ≤ w)
    (outside : w + 8 ≤ s.placement ∨ s.placement + 4096 ≤ w) :
    (s.linked entry).mem.read64 w = s.mem.read64 w := by
  simp only [linked]
  rw [Mem.read64_write64_ne _ _ apart]
  exact Mem.readLE_blit_outside _ _ outside

/-! ## What every call preserves -/

theorem mapPageN_nPages {fuel : Nat} {s s' : Vmm} {a : Nat} (h : mapPageN k fuel s a = some s') :
    s'.nPages ≤ s.nPages := by
  refine mapPageN_run (R := fun s s' => s'.nPages ≤ s.nPages) (fun _ => Nat.le_refl _)
    (fun h₁ h₂ => Nat.le_trans h₂ h₁) ?_ (fun _ _ _ _ _ => Nat.le_refl _) h
  intro s masked entry _ _
  rw [linkTable_nPages]
  omega

/-- The free frames shrink from below, and the present entry at `w` stays when
`w` is neither in page 0 nor in a free frame. -/
structure Keeps (w : Nat) (s s' : Vmm) : Prop where
  supply : s'.Supply
  top : s'.placement + 4096 * s'.nPages = s.placement + 4096 * s.nPages
  forward : s.placement ≤ s'.placement
  entry : 4096 ≤ w → s.nPages = 0 ∨ w + 8 ≤ s.placement ∨ s.placement + 4096 * s.nPages ≤ w →
    present (s.mem.read64 w) = true → s'.mem.read64 w = s.mem.read64 w

theorem linkTable_keeps {w : Nat} (hw : w % 8 = 0) {s : Vmm} (supply : s.Supply) (masked : Bool)
    {entry : Nat} (he : entry % 8 = 0) (absent : present (s.mem.read64 entry) = false) :
    Keeps w s (s.linkTable masked entry).2 := by
  by_cases h : s.nPages = 0
  · rw [linkTable_none masked entry h]
    refine ⟨fun pos => absurd h (Nat.ne_of_gt pos), rfl, Nat.le_refl _, ?_⟩
    intro low _ hp
    have ne : w ≠ entry := by rintro rfl; simp [absent] at hp
    rw [linkedNull_read s he hw ne, if_neg (by omega)]
  · have pos : 0 < s.nPages := by omega
    have span := supply pos
    rw [linkTable_pos masked entry pos span.1 (by omega)]
    refine ⟨?_, ?_, ?_, ?_⟩
    · intro _
      simp only [linked_placement, linked_nPages]
      omega
    · simp only [linked_placement, linked_nPages]
      omega
    · simp only [linked_placement]
      omega
    · intro _ outside hp
      have ne : w ≠ entry := by rintro rfl; simp [absent] at hp
      exact linked_other s (by omega) (by omega)

theorem Keeps.refl {w : Nat} {s : Vmm} (supply : s.Supply) : Keeps w s s :=
  ⟨supply, rfl, Nat.le_refl _, fun _ _ _ => rfl⟩

theorem Keeps.trans {w : Nat} {s t u : Vmm} (h₁ : Keeps w s t) (h₂ : Keeps w t u) :
    Keeps w s u := by
  refine ⟨h₂.supply, by rw [h₂.top, h₁.top], Nat.le_trans h₁.forward h₂.forward, ?_⟩
  intro low outside hp
  have e₁ := h₁.entry low outside hp
  rw [← e₁]
  refine h₂.entry low ?_ (by rw [e₁]; exact hp)
  have := h₁.top
  have := h₁.forward
  omega

theorem mapPageN_keeps {fuel : Nat} {s s' : Vmm} {a w : Nat} (hw : w % 8 = 0) (supply : s.Supply)
    (h : mapPageN k fuel s a = some s') : Keeps w s s' := by
  refine mapPageN_run (R := fun s s' => s.Supply → Keeps w s s') (fun s => Keeps.refl) ?_ ?_ ?_
    h supply
  · intro s t u h₁ h₂ supply
    exact (h₁ supply).trans (h₂ (h₁ supply).supply)
  · exact fun s masked entry he absent supply => linkTable_keeps hw supply masked he absent
  · intro s entry v he absent supply
    refine ⟨supply, rfl, Nat.le_refl _, ?_⟩
    intro _ _ hp
    have ne : w ≠ entry := by rintro rfl; simp [absent] at hp
    exact Mem.read64_write64_ne _ _ (by omega)

/-! ## Termination

Every recursion follows an allocation, so only the calls made when the segment
is used up could go on for ever. Those all map page 0, and each of them finds
one more level of the walk of address 0 leading into page 0. -/

/-- No frame is left, and the first entry of page 0 is absent or points back
to page 0: how every link of `NULL` leaves the state. -/
structure Dry (s : Vmm) : Prop where
  empty : s.nPages = 0
  first : s.mem.read64 0 = 0 ∨ s.mem.read64 0 = 7

theorem linkedNull_dry {s : Vmm} (h : s.nPages = 0) {entry : Nat} (he : entry % 8 = 0) :
    Dry (s.linkedNull entry) := by
  refine ⟨h, ?_⟩
  by_cases ne : 0 = entry
  · subst ne
    exact Or.inr (linkedNull_entry s 0)
  · rw [linkedNull_read s he rfl ne, if_pos (by omega)]
    exact Or.inl rfl

/-- The three tables on the walk of address 0. -/
def zeroTable (k : Image) (s : Vmm) : Nat → Nat
  | 0 => k.pml4
  | l + 1 => s.mem.read64 (zeroTable k s l) &&& pageAddrMask

/-- All three tables of address 0 are present. -/
def ZeroMapped (k : Image) (s : Vmm) : Prop :=
  ∀ l, l < 3 → present (s.mem.read64 (zeroTable k s l)) = true

theorem zeroTable_aligned (s : Vmm) (l : Nat) : zeroTable k s l % 4096 = 0 := by
  cases l with
  | zero => exact k.aligned
  | succ l => exact mask_aligned _

theorem zeroMapped_iff (s : Vmm) : ZeroMapped k s ↔
    present (s.mem.read64 (zeroTable k s 0)) = true ∧
    present (s.mem.read64 (zeroTable k s 1)) = true ∧
    present (s.mem.read64 (zeroTable k s 2)) = true := by
  constructor
  · intro h
    exact ⟨h 0 (by omega), h 1 (by omega), h 2 (by omega)⟩
  · rintro ⟨h₀, h₁, h₂⟩ l hl
    obtain rfl | rfl | rfl : l = 0 ∨ l = 1 ∨ l = 2 := by omega
    · exact h₀
    · exact h₁
    · exact h₂

theorem zeroTable_step {s s' : Vmm} {l : Nat} (same : zeroTable k s' l = zeroTable k s l)
    (entry : s'.mem.read64 (zeroTable k s l) = s.mem.read64 (zeroTable k s l)) :
    zeroTable k s' (l + 1) = zeroTable k s (l + 1) := by
  simp only [zeroTable]
  rw [same, entry]

/-- The same present entries give the same walk. -/
theorem zeroTable_congr {s s' : Vmm} {n : Nat}
    (same : ∀ l, l < n → s'.mem.read64 (zeroTable k s l) = s.mem.read64 (zeroTable k s l)) :
    ∀ l, l ≤ n → zeroTable k s' l = zeroTable k s l := by
  intro l
  induction l with
  | zero => intro _; rfl
  | succ l ih =>
    intro hl
    exact zeroTable_step (ih (by omega)) (same l (by omega))

theorem mapLeaf_keeps (s : Vmm) {pt w : Nat} (idx a : Nat) (ht : pt % 8 = 0) (hw : w % 8 = 0)
    (hp : present (s.mem.read64 w) = true) :
    (s.mapLeaf pt idx a).mem.read64 w = s.mem.read64 w := by
  unfold mapLeaf
  dsimp only
  split
  · rfl
  · next absent =>
    have ne : w ≠ pt + 8 * idx := by rintro rfl; exact absent hp
    exact Mem.read64_write64_ne _ _ (by omega)

/-- The leaf entry ends a call on page 0 without breaking the walk. -/
theorem mapLeaf_zero {s : Vmm} (dry : Dry s) (mapped : ZeroMapped k s) {pt : Nat}
    (ht : pt % 4096 = 0) : Dry (s.mapLeaf pt 0 0) ∧ ZeroMapped k (s.mapLeaf pt 0 0) := by
  constructor
  · unfold mapLeaf
    dsimp only
    split
    · exact dry
    · refine ⟨dry.empty, ?_⟩
      have value : 0 &&& pageAddrMask ||| flags = 7 := by decide
      rw [value]
      by_cases zero : pt = 0
      · subst zero
        exact Or.inr (Mem.read64_write64 _ _ (by omega))
      · have apart : 0 + 8 ≤ pt + 8 * 0 ∨ pt + 8 * 0 + 8 ≤ 0 := by omega
        rw [Mem.read64_write64_ne _ _ apart]
        exact dry.first
  · have walk (l : Nat) (hl : l < 3) := mapLeaf_keeps s 0 0 (show pt % 8 = 0 by omega)
      (by have := zeroTable_aligned (k := k) s l; omega) (mapped l hl)
    intro l hl
    rw [zeroTable_congr walk l (by omega), walk l hl]
    exact mapped l hl

theorem mapPageBody_zero {again : Vmm → Nat → Option Vmm} (s : Vmm) :
    s.mapPageBody k again 0 =
      (s.enter again true k.pml4 0).bind fun (s, pdpt) =>
        (s.enter again false pdpt 0).bind fun (s, pdt) =>
          (s.enter again false pdt 0).bind fun (s, pt) => some (s.mapLeaf pt 0 0) := rfl

/-- A level of the walk of address 0 that is already there. -/
theorem enter_zero (again : Vmm → Nat → Option Vmm) (masked : Bool) {s : Vmm} {l : Nat}
    (h : present (s.mem.read64 (zeroTable k s l)) = true) :
    s.enter again masked (zeroTable k s l) 0 = some (s, zeroTable k s (l + 1)) :=
  enter_present h

/-- No level is missing: no recursion. -/
theorem zero_mapped_total {s : Vmm} (dry : Dry s) (mapped : ZeroMapped k s) (fuel : Nat) :
    ∃ s', mapPageN k (fuel + 1) s 0 = some s' ∧ Dry s' ∧ ZeroMapped k s' := by
  refine ⟨s.mapLeaf (zeroTable k s 3) 0 0, ?_, mapLeaf_zero dry mapped (zeroTable_aligned s 3)⟩
  have e₁ := enter_zero (mapPageN k fuel) true (mapped 0 (by omega))
  have e₂ := enter_zero (mapPageN k fuel) false (mapped 1 (by omega))
  have e₃ := enter_zero (mapPageN k fuel) false (mapped 2 (by omega))
  rw [mapPageN, mapPageBody_zero, show k.pml4 = zeroTable k s 0 from rfl, e₁]
  simp only [Option.bind_some, e₂, e₃]

theorem dry_supply {s : Vmm} (h : s.nPages = 0) : s.Supply := fun pos => absurd h (Nat.ne_of_gt pos)

/-- Entries of tables outside page 0 survive a link of `NULL`. -/
theorem linkedNull_keeps {s : Vmm} {entry w : Nat} (he : entry % 8 = 0) (hw : w % 8 = 0)
    (high : 4096 ≤ w) (hp : present (s.mem.read64 w) = true)
    (absent : present (s.mem.read64 entry) = false) :
    (s.linkedNull entry).mem.read64 w = s.mem.read64 w := by
  have ne : w ≠ entry := by rintro rfl; simp [absent] at hp
  rw [linkedNull_read s he hw ne, if_neg (by omega)]

theorem pml4_entry (k : Image) : k.pml4 % 8 = 0 ∧ 4096 ≤ k.pml4 := by
  have := k.aligned
  have := k.nonnull
  omega

/-- The first missing level is linked and page 0 mapped; the rest of the call
then finds every level present. -/
theorem zero_link_total {s s₂ : Vmm} (empty : s.nPages = 0) {l : Nat} (hl : l < 3)
    (above : ∀ j, j < l → present (s.mem.read64 (zeroTable k s j)) = true)
    (absent : present (s.mem.read64 (zeroTable k s l)) = false) {fuel : Nat}
    (inner : mapPageN k fuel (s.linkedNull (zeroTable k s l)) 0 = some s₂)
    (dry : Dry s₂) (mapped : ZeroMapped k s₂) :
    ∃ s', mapPageN k (fuel + 1) s 0 = some s' ∧ Dry s' ∧ ZeroMapped k s' := by
  have linked (masked : Bool) : s.enter (mapPageN k fuel) masked (zeroTable k s l) 0 =
      some (s₂, s₂.mem.read64 (zeroTable k s l) &&& pageAddrMask) := by
    refine enter_absent absent ?_
    rw [linkTable_none masked _ empty]
    exact inner
  have root : k.pml4 = zeroTable k s 0 := rfl
  have finish (pt : Nat) (ht : pt % 4096 = 0) := mapLeaf_zero dry mapped ht
  have e₂ := enter_zero (mapPageN k fuel) false (mapped 1 (by omega))
  have e₃ := enter_zero (mapPageN k fuel) false (mapped 2 (by omega))
  obtain rfl | rfl | rfl : l = 0 ∨ l = 1 ∨ l = 2 := by omega
  · refine ⟨_, ?_, finish (zeroTable k s₂ 3) (zeroTable_aligned s₂ 3)⟩
    rw [mapPageN, mapPageBody_zero, root, linked true, Option.bind_some]
    simp only [show s₂.mem.read64 (zeroTable k s 0) &&& pageAddrMask = zeroTable k s₂ 1 from rfl,
      e₂, e₃, Option.bind_some]
  · have e₁ := enter_zero (mapPageN k fuel) true (above 0 (by omega))
    -- the root entry lies outside page 0, so `pdpt` is the same table afterwards
    obtain ⟨hr, high⟩ := pml4_entry k
    have ht : zeroTable k s 1 % 8 = 0 := by have := zeroTable_aligned (k := k) s 1; omega
    have step := linkedNull_keeps ht hr high (above 0 (by omega)) absent
    have kept := (mapPageN_keeps hr (dry_supply (s := s.linkedNull _) empty) inner).entry high
      (Or.inl empty) (by rw [step]; exact above 0 (by omega))
    have same : zeroTable k s₂ 1 = zeroTable k s 1 := zeroTable_step rfl (kept.trans step)
    refine ⟨_, ?_, finish (zeroTable k s₂ 3) (zeroTable_aligned s₂ 3)⟩
    rw [mapPageN, mapPageBody_zero, root, e₁, Option.bind_some]
    simp only [linked false, Option.bind_some]
    rw [show s₂.mem.read64 (zeroTable k s 1) &&& pageAddrMask = zeroTable k s₂ 2 by
      rw [← same]; rfl, e₃, Option.bind_some]
  · have e₁ := enter_zero (mapPageN k fuel) true (above 0 (by omega))
    have e₂' := enter_zero (mapPageN k fuel) false (above 1 (by omega))
    refine ⟨_, ?_, finish _ (mask_aligned (s₂.mem.read64 (zeroTable k s 2)))⟩
    rw [mapPageN, mapPageBody_zero, root, e₁, Option.bind_some]
    simp only [e₂', linked false, Option.bind_some]

/-- The second table is page 0 itself: linking page 0 there completes the walk. -/
theorem second_total {s : Vmm} (dry : Dry s) (root : present (s.mem.read64 k.pml4) = true)
    (zero : zeroTable k s 1 = 0) (absent : present (s.mem.read64 (zeroTable k s 1)) = false)
    (fuel : Nat) : ∃ s', mapPageN k (fuel + 2) s 0 = some s' ∧ Dry s' ∧ ZeroMapped k s' := by
  obtain ⟨hr, high⟩ := pml4_entry k
  have step := linkedNull_keeps (by omega) hr high root absent
  have first := linkedNull_entry s (zeroTable k s 1)
  have t₁ : zeroTable k (s.linkedNull (zeroTable k s 1)) 1 = zeroTable k s 1 :=
    zeroTable_step rfl step
  have t₂ : zeroTable k (s.linkedNull (zeroTable k s 1)) 2 = 0 := by
    rw [zeroTable, t₁, first]
    decide
  have mapped : ZeroMapped k (s.linkedNull (zeroTable k s 1)) := by
    rw [zeroMapped_iff]
    refine ⟨?_, ?_, ?_⟩
    · rw [zeroTable, step]
      exact root
    · rw [t₁, first]
      decide
    · rw [t₂, ← zero, first]
      decide
  obtain ⟨s₂, inner, dry₂, mapped₂⟩ :=
    zero_mapped_total (linkedNull_dry dry.empty (by omega)) mapped fuel
  refine zero_link_total dry.empty (l := 1) (by omega) ?_ absent inner dry₂ mapped₂
  intro j hj
  obtain rfl : j = 0 := by omega
  exact root

/-- Were the second table page 0, its first entry would lead back and be present. -/
theorem Dry.second_ne {s : Vmm} (dry : Dry s)
    (second : present (s.mem.read64 (zeroTable k s 1)) = true)
    (absent : present (s.mem.read64 (zeroTable k s 2)) = false) : zeroTable k s 1 ≠ 0 := by
  intro zero
  rw [zero] at second
  have seven : s.mem.read64 0 = 7 := by
    cases dry.first with
    | inl h =>
      rw [h] at second
      cases second
    | inr h => exact h
  have back : zeroTable k s 2 = 0 := by
    rw [zeroTable, zero, seven]
    decide
  rw [back, seven] at absent
  cases absent

/-- The third table is missing below one outside page 0. -/
theorem third_total {s : Vmm} (dry : Dry s) (root : present (s.mem.read64 k.pml4) = true)
    (second : present (s.mem.read64 (zeroTable k s 1)) = true)
    (absent : present (s.mem.read64 (zeroTable k s 2)) = false) (fuel : Nat) :
    ∃ s', mapPageN k (fuel + 2) s 0 = some s' ∧ Dry s' ∧ ZeroMapped k s' := by
  obtain ⟨hr, high⟩ := pml4_entry k
  have a₁ := zeroTable_aligned (k := k) s 1
  have a₂ := zeroTable_aligned (k := k) s 2
  have ne := dry.second_ne second absent
  have step := linkedNull_keeps (show zeroTable k s 2 % 8 = 0 by omega) hr high root absent
  have step₁ := linkedNull_keeps (show zeroTable k s 2 % 8 = 0 by omega)
    (by omega) (by omega) second absent
  have t₁ : zeroTable k (s.linkedNull (zeroTable k s 2)) 1 = zeroTable k s 1 :=
    zeroTable_step rfl step
  have t₂ : zeroTable k (s.linkedNull (zeroTable k s 2)) 2 = zeroTable k s 2 :=
    zeroTable_step t₁ step₁
  have mapped : ZeroMapped k (s.linkedNull (zeroTable k s 2)) := by
    rw [zeroMapped_iff]
    refine ⟨?_, ?_, ?_⟩
    · rw [zeroTable, step]
      exact root
    · rw [t₁, step₁]
      exact second
    · rw [t₂, linkedNull_entry]
      decide
  obtain ⟨s₂, inner, dry₂, mapped₂⟩ :=
    zero_mapped_total (linkedNull_dry dry.empty (by omega)) mapped fuel
  refine zero_link_total dry.empty (l := 2) (by omega) ?_ absent inner dry₂ mapped₂
  intro j hj
  obtain rfl | rfl : j = 0 ∨ j = 1 := by omega
  · exact root
  · exact second

/-- At most the link of the second or third level is missing. -/
theorem near_total {s : Vmm} (dry : Dry s) (root : present (s.mem.read64 k.pml4) = true)
    (next : zeroTable k s 1 ≠ 0 → present (s.mem.read64 (zeroTable k s 1)) = true) (fuel : Nat) :
    ∃ s', mapPageN k (fuel + 2) s 0 = some s' ∧ Dry s' ∧ ZeroMapped k s' := by
  cases second : present (s.mem.read64 (zeroTable k s 1)) with
  | false =>
    have zero : zeroTable k s 1 = 0 := by
      by_contra ne
      simp [next ne] at second
    exact second_total dry root zero second fuel
  | true =>
    cases third : present (s.mem.read64 (zeroTable k s 2)) with
    | true => exact zero_mapped_total dry ((zeroMapped_iff s).mpr ⟨root, second, third⟩) (fuel + 1)
    | false => exact third_total dry root second third fuel

/-- Without free frames the call on page 0 nests at most three deep. -/
theorem dry_total {s : Vmm} (dry : Dry s) (fuel : Nat) :
    ∃ s', mapPageN k (fuel + 3) s 0 = some s' ∧ Dry s' := by
  obtain ⟨hr, high⟩ := pml4_entry k
  have a₁ := zeroTable_aligned (k := k) s 1
  cases root : present (s.mem.read64 k.pml4) with
  | false =>
    have first := linkedNull_entry s k.pml4
    have t₁ : zeroTable k (s.linkedNull k.pml4) 1 = 0 := by
      simp only [zeroTable]
      rw [first]
      decide
    obtain ⟨s₂, inner, dry₂, mapped₂⟩ := near_total (linkedNull_dry dry.empty hr)
      (by rw [first]; decide) (fun ne => absurd t₁ ne) fuel
    obtain ⟨s', run, dry', _⟩ := zero_link_total dry.empty (l := 0) (by omega)
      (fun j hj => absurd hj (Nat.not_lt_zero j)) root inner dry₂ mapped₂
    exact ⟨s', run, dry'⟩
  | true =>
    by_cases next : zeroTable k s 1 ≠ 0 → present (s.mem.read64 (zeroTable k s 1)) = true
    · obtain ⟨s', run, dry', _⟩ := near_total dry root next (fuel + 1)
      exact ⟨s', run, dry'⟩
    · obtain ⟨ne, absent⟩ : zeroTable k s 1 ≠ 0 ∧
          present (s.mem.read64 (zeroTable k s 1)) = false := by
        simpa using next
      have step := linkedNull_keeps (show zeroTable k s 1 % 8 = 0 by omega) hr high root absent
      have first := linkedNull_entry s (zeroTable k s 1)
      have t₁ : zeroTable k (s.linkedNull (zeroTable k s 1)) 1 = zeroTable k s 1 :=
        zeroTable_step rfl step
      obtain ⟨s₂, inner, dry₂, mapped₂⟩ := near_total (k := k)
        (linkedNull_dry dry.empty (show zeroTable k s 1 % 8 = 0 by omega))
        (by rw [step]; exact root) (fun _ => by rw [t₁, first]; decide) fuel
      have above (j : Nat) (hj : j < 1) : present (s.mem.read64 (zeroTable k s j)) = true := by
        obtain rfl : j = 0 := by omega
        exact root
      obtain ⟨s', run, dry', _⟩ :=
        zero_link_total dry.empty (l := 1) (by omega) above absent inner dry₂ mapped₂
      exact ⟨s', run, dry'⟩

section
variable {again : Vmm → Nat → Option Vmm} {n : Nat}
  (next : ∀ (s : Vmm) (masked : Bool) (entry : Nat), entry % 8 = 0 → s.nPages ≤ n →
    ∃ s', again (s.linkTable masked entry).2 (s.linkTable masked entry).1 = some s' ∧
      s'.nPages ≤ n)
include next

theorem enter_total {s : Vmm} (hs : s.nPages ≤ n) (masked : Bool) {table : Nat}
    (ht : table % 4096 = 0) (idx : Nat) :
    ∃ r, s.enter again masked table idx = some r ∧ r.1.nPages ≤ n ∧ r.2 % 4096 = 0 := by
  cases h : present (s.mem.read64 (table + 8 * idx)) with
  | true => exact ⟨_, enter_present h, hs, mask_aligned _⟩
  | false =>
    obtain ⟨s', run, le⟩ := next s masked (table + 8 * idx) (by omega) hs
    exact ⟨_, enter_absent h run, le, mask_aligned _⟩

theorem mapPageBody_total {s : Vmm} (hs : s.nPages ≤ n) (a : Nat) :
    ∃ s', s.mapPageBody k again a = some s' := by
  obtain ⟨r₁, e₁, h₁, t₁⟩ := enter_total next hs true k.aligned (pml4Idx a)
  obtain ⟨r₂, e₂, h₂, t₂⟩ := enter_total next h₁ false t₁ (pdpIdx a)
  obtain ⟨r₃, e₃, h₃, t₃⟩ := enter_total next h₂ false t₂ (pdIdx a)
  refine ⟨r₃.1.mapLeaf r₃.2 (ptIdx a) a, ?_⟩
  unfold mapPageBody
  simp only [e₁, Option.bind_some, e₂, e₃]

end

/-- **A call always returns.** Four more nested calls than there are free
frames are enough, whatever the memory holds. -/
theorem mapPageN_total : ∀ {n : Nat} {s : Vmm}, s.nPages ≤ n → ∀ (fuel a : Nat),
    ∃ s', mapPageN k (n + 4 + fuel) s a = some s' := by
  intro n
  induction n with
  | zero =>
    intro s hs fuel a
    rw [show 0 + 4 + fuel = fuel + 3 + 1 by omega]
    refine mapPageBody_total (n := 0) ?_ hs a
    intro s masked entry he hs
    have empty : s.nPages = 0 := by omega
    obtain ⟨s', run, dry⟩ := dry_total (k := k) (linkedNull_dry empty he) fuel
    rw [linkTable_none masked entry empty]
    exact ⟨s', run, dry.empty.le⟩
  | succ n ih =>
    intro s hs fuel a
    rw [show n + 1 + 4 + fuel = (n + 4 + fuel) + 1 by omega]
    refine mapPageBody_total (n := n + 1) ?_ hs a
    intro s masked entry he hs
    have less : (s.linkTable masked entry).2.nPages ≤ n := by
      rw [linkTable_nPages]
      omega
    obtain ⟨s', run⟩ := ih less fuel (s.linkTable masked entry).1
    have := mapPageN_nPages run
    exact ⟨s', run, by omega⟩

/-- The result of the recursion does not depend on the fuel. -/
theorem mapPageN_mono {fuel : Nat} : ∀ {s s' : Vmm} {a : Nat}, mapPageN k fuel s a = some s' →
    ∀ more, mapPageN k (fuel + more) s a = some s' := by
  induction fuel with
  | zero => intro s s' a h; cases h
  | succ fuel ih =>
    intro s s' a h more
    have level {masked : Bool} {table idx : Nat} {s : Vmm} {r : Vmm × Nat}
        (h : s.enter (mapPageN k fuel) masked table idx = some r) :
        s.enter (mapPageN k (fuel + more)) masked table idx = some r := by
      obtain ⟨next, ⟨there, same⟩ | ⟨absent, run⟩⟩ := enter_cases h
      · rw [enter_present there, ← same, ← next]
      · rw [enter_absent absent (ih run more), ← next]
    obtain ⟨r₁, r₂, r₃, e₁, e₂, e₃, rfl⟩ := mapPageBody_cases h
    rw [show fuel + 1 + more = fuel + more + 1 by omega, mapPageN, mapPageBody, level e₁]
    simp only [Option.bind_some, level e₂, level e₃]

theorem mapPageN_of_le {fuel more : Nat} {s s' : Vmm} {a : Nat} (le : fuel ≤ more)
    (h : mapPageN k fuel s a = some s') : mapPageN k more s a = some s' := by
  have := mapPageN_mono h (more - fuel)
  rwa [show fuel + (more - fuel) = more by omega] at this

theorem mapPage_run (s : Vmm) (a : Nat) :
    mapPageN k (s.nPages + 4) s a = some (s.mapPage k a) := by
  obtain ⟨s', run⟩ := mapPageN_total (k := k) (Nat.le_refl s.nPages) 0 a
  rw [mapPage, show s.nPages + 4 = s.nPages + 4 + 0 by omega, run, Option.getD_some]

/-- `map_page` satisfies the recursion of the source, without a bound on its depth. -/
theorem mapPage_eq (s : Vmm) (a : Nat) :
    s.mapPageBody k (fun s a => some (s.mapPage k a)) a = some (s.mapPage k a) := by
  have run := mapPage_run (k := k) s a
  rw [mapPageN] at run
  obtain ⟨r₁, r₂, r₃, e₁, e₂, e₃, same⟩ := mapPageBody_cases run
  have level {masked : Bool} {table idx : Nat} {s' : Vmm} {r : Vmm × Nat}
      (less : s'.nPages ≤ s.nPages)
      (h : s'.enter (mapPageN k (s.nPages + 3)) masked table idx = some r) :
      s'.enter (fun s a => some (s.mapPage k a)) masked table idx = some r ∧
        r.1.nPages ≤ s.nPages := by
    obtain ⟨next, ⟨there, same⟩ | ⟨absent, run⟩⟩ := enter_cases h
    · exact ⟨by rw [enter_present there, ← same, ← next], same ▸ less⟩
    · have le := linkTable_nPages s' masked (table + 8 * idx)
      have whole := mapPageN_of_le (show s.nPages + 3 ≤ s.nPages + 4 by omega) run
      have own := mapPageN_of_le (show _ ≤ s.nPages + 4 by omega) (mapPage_run (k := k)
        (s'.linkTable masked (table + 8 * idx)).2 (s'.linkTable masked (table + 8 * idx)).1)
      rw [whole] at own
      have count := mapPageN_nPages run
      refine ⟨?_, by omega⟩
      rw [enter_absent absent own.symm, ← next]
  obtain ⟨f₁, n₁⟩ := level (Nat.le_refl _) e₁
  obtain ⟨f₂, n₂⟩ := level n₁ e₂
  obtain ⟨f₃, n₃⟩ := level n₂ e₃
  rw [same, mapPageBody, f₁]
  simp only [Option.bind_some, f₂, f₃]

end KessOS.Vmm
