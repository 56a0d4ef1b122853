import KessOS.Demand
import KessOS.MapPage

/-!
# The tree of page tables in memory

A table slot is a level with the address bits above it. `Rep` says which tree
the memory holds: the frame of every linked slot and the word of every leaf.

* `tableAt`, `leafAt`: the walk the processor makes;
* `Rep.linked`, `Rep.mapLeaf`: what one link and one leaf entry do to the tree;
* `Rep.tableAt_iff`, `Rep.leafAt_iff`: the walk finds exactly the tree.
-/

namespace KessOS.Vmm

open Demand (Ledger)

/-! ## Slots -/

/-- The table index at level `l` of the walk of `a`; level 0 is `pml4`. -/
def index (l a : Nat) : Nat := a >>> (39 - 9 * l) &&& 0x1ff

/-- The table the walk of `a` uses at a level, and the leaf entry it ends at. -/
def tableAt (k : Image) (m : Mem) (a : Nat) : Nat → Option Nat
  | 0 => some k.pml4
  | l + 1 => (tableAt k m a l).bind fun table =>
    let entry := m.read64 (table + 8 * index l a)
    if present entry then some (entry &&& pageAddrMask) else none

def leafAt (k : Image) (m : Mem) (a : Nat) : Option Nat :=
  (tableAt k m a 3).bind fun pt =>
    let entry := m.read64 (pt + 8 * index 3 a)
    if present entry then some entry else none

/-- The physical address an address translates to. -/
def translate (k : Image) (m : Mem) (a : Nat) : Option Nat :=
  (leafAt k m a).map fun entry => (entry &&& pageAddrMask) + a % 4096

/-- The slot of a table: its level and the address bits that lead to it. -/
abbrev Slot := Nat × Nat

def slot (l a : Nat) : Slot := (l, a / 2 ^ (48 - 9 * l) % 2 ^ (9 * l))

def root : Slot := (0, 0)

def child (x : Slot) (i : Nat) : Slot := (x.1 + 1, 512 * x.2 + i)

/-- The slots that mapping an address needs, top first. -/
def path (a : Nat) : List Slot := [slot 1 a, slot 2 a, slot 3 a]

def pageNo (a : Nat) : Nat := a / 4096 % 68719476736

theorem index_eq (l a : Nat) : index l a = a / 2 ^ (39 - 9 * l) % 512 :=
  Bits.shift_and a (39 - 9 * l) 9

theorem index_lt (l a : Nat) : index l a < 512 := by
  rw [index_eq]
  omega

theorem slot_zero (a : Nat) : slot 0 a = root := by simp [slot, root, Nat.mod_one]

theorem slot_succ {l : Nat} (hl : l < 3) (a : Nat) :
    slot (l + 1) a = child (slot l a) (index l a) := by
  obtain rfl | rfl | rfl : l = 0 ∨ l = 1 ∨ l = 2 := by omega
  all_goals
    simp only [slot, child, index_eq, Prod.mk.injEq, true_and]
    omega

theorem pageNo_eq (a : Nat) : pageNo a = 512 * (slot 3 a).2 + index 3 a := by
  simp only [pageNo, slot, index_eq]
  omega

theorem pageNo_div (a : Nat) : (3, pageNo a / 512) = slot 3 a := by
  simp only [pageNo, slot, Prod.mk.injEq, true_and]
  omega

theorem child_inj {x y : Slot} {i j : Nat} (hi : i < 512) (hj : j < 512)
    (h : child x i = child y j) : x = y ∧ i = j := by
  obtain ⟨l, q⟩ := x
  obtain ⟨l', q'⟩ := y
  simp only [child, Prod.mk.injEq] at h ⊢
  omega

/-! ## The tree a memory holds -/

/-- The frame of every slot, that of the root being `pml4`, and the word of
every leaf entry by page number. -/
structure Tree where
  frame : Slot → Nat
  leaf : Nat → Nat

/-- `y` receives frame `f`. -/
def Tree.graft (t : Tree) (y : Slot) (f : Nat) : Tree :=
  { t with frame := fun z => if z = y then f else t.frame z }

def Tree.setLeaf (t : Tree) (p w : Nat) : Tree :=
  { t with leaf := fun q => if q = p then w else t.leaf q }

/-- The frames the allocator starts from, of which the first `lim` are whole
pages of physical memory. Before them it handed out `old` to the tree, and
`prior` to others. -/
structure Plan where
  base : Nat
  lim : Nat
  pages : Nat
  old : List (Option Nat)
  prior : List (Option Nat)
  within : lim ≤ pages
  span : 0 < lim → base % 4096 = 0 ∧ base + 4096 * lim ≤ 4503599627370496

/-- The plan that gives out all free frames. -/
def Plan.whole (s : Vmm) (old prior : List (Option Nat)) (span : 0 < s.nPages →
    s.placement % 4096 = 0 ∧ s.placement + 4096 * s.nPages ≤ 4503599627370496) : Plan where
  base := s.placement
  lim := s.nPages
  pages := s.nPages
  old := old
  prior := prior
  within := Nat.le_refl _
  span := span

def Plan.frame (p : Plan) (j : Nat) : Nat := p.base + 4096 * j

/-- The record of the first `n` frames handed out, latest first. -/
def Plan.taken (p : Plan) : Nat → List (Option Nat)
  | 0 => p.old
  | n + 1 => some (p.frame n) :: p.taken n

def IsTable (L : Ledger Slot Nat) (x : Slot) : Prop := x = root ∨ x ∈ L.held

/-- Memory and allocator of `s` hold the tree `t` with the slots of `L`. -/
structure Rep (k : Image) (p : Plan) (s : Vmm) (L : Ledger Slot Nat) (t : Tree) : Prop where
  top : t.frame root = k.pml4
  shape : ∀ x ∈ L.held, 1 ≤ x.1 ∧ x.1 ≤ 3 ∧ IsTable L (x.1 - 1, x.2 / 512)
  inner : ∀ x, IsTable L x → x.1 < 3 → ∀ i, i < 512 →
    (child x i ∈ L.held → s.mem.read64 (t.frame x + 8 * i) = t.frame (child x i) + 7) ∧
    (child x i ∉ L.held → s.mem.read64 (t.frame x + 8 * i) = 0)
  leaves : ∀ q, (3, q) ∈ L.held → ∀ i, i < 512 →
    s.mem.read64 (t.frame (3, q) + 8 * i) = t.leaf (512 * q + i)
  word : ∀ n, t.leaf n ≠ 0 →
    (∃ a ∈ L.visited, pageNo a = n ∧ t.leaf n = a &&& pageAddrMask ||| flags) ∧
    (3, n / 512) ∈ L.held
  mapped : ∀ a ∈ L.visited, t.leaf (pageNo a) ≠ 0
  page : ∀ x ∈ L.held, t.frame x % 4096 = 0 ∧ t.frame x < 4503599627370496
  handed : ∀ x ∈ L.held, some (t.frame x) ∈ p.taken L.used
  inj : ∀ x y, IsTable L x → IsTable L y → t.frame x = t.frame y → x = y
  placed : s.placement = p.frame L.used
  total : L.used + s.nPages = p.pages
  fresh : ∀ x, IsTable L x → ∀ j, L.used ≤ j → j < p.lim → t.frame x ≠ p.frame j
  log : s.allocs = p.taken L.used ++ p.prior

/-- Tables stay where they are. -/
def Extends (L : Ledger Slot Nat) (t t' : Tree) : Prop :=
  ∀ x, IsTable L x → t'.frame x = t.frame x

section
variable {k : Image} {p : Plan} {s : Vmm} {L : Ledger Slot Nat} {t : Tree}

theorem Rep.aligned (h : Rep k p s L t) {x : Slot} (hx : IsTable L x) : t.frame x % 4096 = 0 := by
  rcases hx with rfl | hx
  · rw [h.top]
    exact k.aligned
  · exact (h.page x hx).1

/-- Two entries of tables are the same entry or eight bytes apart. -/
theorem Rep.entry_apart (h : Rep k p s L t) {x z : Slot} (hx : IsTable L x) (hz : IsTable L z)
    {i j : Nat} (hi : i < 512) (hj : j < 512) (ne : z ≠ x ∨ j ≠ i) :
    t.frame z + 8 * j + 8 ≤ t.frame x + 8 * i ∨ t.frame x + 8 * i + 8 ≤ t.frame z + 8 * j := by
  have ax := h.aligned hx
  have az := h.aligned hz
  by_cases same : z = x
  · subst same
    cases ne with
    | inl ne => exact absurd rfl ne
    | inr ne => omega
  · have : t.frame z ≠ t.frame x := fun e => same (h.inj z x hz hx e)
    omega

/-- The entry of a slot whose table is linked. -/
theorem Rep.present_iff (h : Rep k p s L t) {x : Slot} (hx : IsTable L x) (hl : x.1 < 3) {i : Nat}
    (hi : i < 512) : present (s.mem.read64 (t.frame x + 8 * i)) = true ↔ child x i ∈ L.held := by
  obtain ⟨there, absent⟩ := h.inner x hx hl i hi
  by_cases hc : child x i ∈ L.held
  · have := (h.page _ hc).1
    rw [there hc, Vmm.present_iff]
    simp only [hc, iff_true]
    omega
  · rw [absent hc]
    simp [not_present_zero, hc]

theorem Rep.next_table (h : Rep k p s L t) {x : Slot} (hx : IsTable L x) (hl : x.1 < 3) {i : Nat}
    (hi : i < 512) (hc : child x i ∈ L.held) :
    s.mem.read64 (t.frame x + 8 * i) &&& pageAddrMask = t.frame (child x i) := by
  obtain ⟨aligned, small⟩ := h.page _ hc
  rw [(h.inner x hx hl i hi).1 hc, mask_eq]
  omega

theorem isTable_take {y z : Slot} : IsTable (L.take y) z ↔ IsTable L z ∨ z = y := by
  simp only [IsTable, Ledger.take_held, Finset.mem_insert]
  constructor
  · rintro (h | h | h)
    · exact Or.inl (Or.inl h)
    · exact Or.inr h
    · exact Or.inl (Or.inr h)
  · rintro ((h | h) | h)
    · exact Or.inl h
    · exact Or.inr (Or.inr h)
    · exact Or.inr (Or.inl h)

theorem child_ne_root (x : Slot) (i : Nat) : child x i ≠ root := by simp [child, root]

theorem child_ne_self (x : Slot) (i : Nat) : child x i ≠ x := by
  intro h
  have := congrArg Prod.fst h
  simp [child] at this

/-- The table above a linked slot is linked. -/
theorem Rep.parent (h : Rep k p s L t) {x : Slot} {i : Nat} (hi : i < 512)
    (hc : child x i ∈ L.held) : IsTable L x := by
  have := (h.shape _ hc).2.2
  simp only [child, Nat.add_sub_cancel] at this
  rwa [show (512 * x.2 + i) / 512 = x.2 by omega] at this

theorem graft_self (y : Slot) (f : Nat) : (t.graft y f).frame y = f := by simp [Tree.graft]

theorem graft_other {y z : Slot} (f : Nat) (ne : z ≠ y) : (t.graft y f).frame z = t.frame z := by
  simp [Tree.graft, ne]

theorem new_slot {x z : Slot} {i : Nat} (absent : child x i ∉ L.held) (hz : IsTable L z) :
    z ≠ child x i := by
  rintro rfl
  cases hz with
  | inl hz => exact child_ne_root _ _ hz
  | inr hz => exact absent hz

/-- A slot without a table has nothing below it. -/
theorem Rep.childless (h : Rep k p s L t) {x : Slot} {i : Nat} (absent : child x i ∉ L.held)
    {j : Nat} (hj : j < 512) : child (child x i) j ∉ insert (child x i) L.held := by
  intro hc
  cases Finset.mem_insert.mp hc with
  | inl hc => exact child_ne_self _ _ hc
  | inr hc => exact new_slot absent (h.parent hj hc) rfl

/-- **A link grows the tree by one empty table.** The new frame is none of the
tables, so nothing else in the tree changes. -/
theorem Rep.linked (h : Rep k p s L t) {x : Slot} (hx : IsTable L x) (hl : x.1 < 3) {i : Nat}
    (hi : i < 512) (absent : child x i ∉ L.held) (room : L.used < p.lim) :
    Rep k p (s.linked (t.frame x + 8 * i)) (L.take (child x i))
      (t.graft (child x i) s.placement) := by
  have placed := h.placed
  obtain ⟨base, top⟩ := p.span (by omega)
  have count := h.total
  have within := p.within
  simp only [Plan.frame] at placed
  have fresh (z : Slot) (hz : IsTable L z) : t.frame z ≠ s.placement := by
    rw [h.placed]
    exact h.fresh z hz L.used (Nat.le_refl _) room
  have new (z : Slot) (hz : IsTable L z) : z ≠ child x i := new_slot absent hz
  have entry : (s.linked (t.frame x + 8 * i)).mem.read64 (t.frame x + 8 * i) = s.placement + 7 :=
    linked_entry _ (by omega)
  have other (z : Slot) (hz : IsTable L z) (j : Nat) (hj : j < 512) (ne : z ≠ x ∨ j ≠ i) :
      (s.linked (t.frame x + 8 * i)).mem.read64 (t.frame z + 8 * j) =
        s.mem.read64 (t.frame z + 8 * j) := by
    have az := h.aligned hz
    have := fresh z hz
    exact linked_other s (h.entry_apart hx hz hi hj ne) (by omega)
  have cleared (j : Nat) (hj : j < 512) :
      (s.linked (t.frame x + 8 * i)).mem.read64 (s.placement + 8 * j) = 0 := by
    have ax := h.aligned hx
    have := fresh x hx
    exact linked_fresh s (by omega) (by omega)
  constructor
  case top => rw [graft_other _ (Ne.symm (child_ne_root x i)), h.top]
  case shape =>
    intro z hz
    rcases Finset.mem_insert.mp hz with rfl | hz
    · refine ⟨by simp [child], by simp only [child]; omega, isTable_take.mpr (Or.inl ?_)⟩
      simp only [child, Nat.add_sub_cancel]
      rwa [show (512 * x.2 + i) / 512 = x.2 by omega]
    · obtain ⟨lo, hi, up⟩ := h.shape z hz
      exact ⟨lo, hi, isTable_take.mpr (Or.inl up)⟩
  case inner =>
    intro z hz hzl j hj
    rcases isTable_take.mp hz with hz | rfl
    · obtain ⟨there, gone⟩ := h.inner z hz hzl j hj
      rw [graft_other _ (new z hz)]
      by_cases here : z = x ∧ j = i
      · obtain ⟨rfl, rfl⟩ := here
        rw [graft_self, entry]
        simp
      · have ne : z ≠ x ∨ j ≠ i := not_and_or.mp here
        have old : child z j ≠ child x i := by
          intro same
          obtain ⟨e₁, e₂⟩ := child_inj hj hi same
          exact here ⟨e₁, e₂⟩
        rw [other z hz j hj ne, graft_other _ old]
        simp only [Ledger.take_held, Finset.mem_insert, old, false_or]
        exact ⟨there, gone⟩
    · rw [graft_self, cleared j hj]
      exact ⟨fun hc => absurd hc (h.childless absent hj), fun _ => rfl⟩
  case leaves =>
    intro q hq j hj
    cases Finset.mem_insert.mp hq with
    | inl hq =>
      rw [hq, graft_self, cleared j hj]
      by_contra ne
      have up := (h.word _ (Ne.symm ne)).2
      rw [show (512 * q + j) / 512 = q by omega, hq] at up
      exact absent up
    | inr hq =>
      rw [graft_other _ (new _ (Or.inr hq)), other _ (Or.inr hq) j hj (Or.inl ?_)]
      · exact h.leaves q hq j hj
      · rintro rfl
        omega
  case word =>
    intro n hn
    obtain ⟨v, hq⟩ := h.word n hn
    exact ⟨v, Finset.mem_insert_of_mem hq⟩
  case mapped => exact h.mapped
  case page =>
    intro z hz
    rcases Finset.mem_insert.mp hz with rfl | hz
    · rw [graft_self]
      omega
    · rw [graft_other _ (new z (Or.inr hz))]
      exact h.page z hz
  case handed =>
    intro z hz
    rcases Finset.mem_insert.mp hz with rfl | hz
    · rw [graft_self, h.placed]
      exact List.mem_cons_self
    · rw [graft_other _ (new z (Or.inr hz))]
      exact List.mem_cons_of_mem _ (h.handed z hz)
  case inj =>
    intro z w hz hw same
    rcases isTable_take.mp hz with hz | rfl <;> rcases isTable_take.mp hw with hw | rfl
    · rw [graft_other _ (new z hz), graft_other _ (new w hw)] at same
      exact h.inj z w hz hw same
    · rw [graft_other _ (new z hz), graft_self] at same
      exact absurd same (fresh z hz)
    · rw [graft_other _ (new w hw), graft_self] at same
      exact absurd same.symm (fresh w hw)
    · rfl
  case placed =>
    simp only [linked_placement, Plan.frame, Ledger.take_used]
    omega
  case total =>
    simp only [linked_nPages, Ledger.take_used]
    omega
  case fresh =>
    intro z hz j lo hi
    simp only [Ledger.take_used] at lo
    rcases isTable_take.mp hz with hz | rfl
    · rw [graft_other _ (new z hz)]
      exact h.fresh z hz j (by omega) hi
    · rw [graft_self]
      simp only [Plan.frame]
      omega
  case log =>
    simp only [linked_allocs, Ledger.take_used, Plan.taken]
    rw [h.log, h.placed, List.cons_append]

theorem Rep.leaf_entry (h : Rep k p s L t) {a : Nat} (ha : slot 3 a ∈ L.held) :
    s.mem.read64 (t.frame (slot 3 a) + 8 * index 3 a) = t.leaf (pageNo a) := by
  rw [pageNo_eq]
  exact h.leaves (slot 3 a).2 ha (index 3 a) (index_lt 3 a)

/-- An address whose leaf entry is there already. -/
theorem Rep.visit (h : Rep k p s L t) {a : Nat} (there : t.leaf (pageNo a) ≠ 0) :
    Rep k p s (L.visit a) t := by
  refine ⟨h.top, h.shape, h.inner, h.leaves, ?_, ?_, h.page, h.handed, h.inj, h.placed,
    h.total, h.fresh, h.log⟩
  · intro n hn
    obtain ⟨⟨v, hv, e⟩, up⟩ := h.word n hn
    exact ⟨⟨v, Set.mem_insert_of_mem _ hv, e⟩, up⟩
  · intro v hv
    rcases Set.mem_insert_iff.mp hv with rfl | hv
    · exact there
    · exact h.mapped v hv

/-- An address whose leaf entry is filled in. -/
theorem Rep.setLeaf (h : Rep k p s L t) {a : Nat} (ha : slot 3 a ∈ L.held) :
    Rep k p
      { s with
        mem := s.mem.write64 (t.frame (slot 3 a) + 8 * index 3 a)
          (a &&& pageAddrMask ||| flags) }
      (L.visit a) (t.setLeaf (pageNo a) (a &&& pageAddrMask ||| flags)) := by
  have hi := index_lt 3 a
  have small : a &&& pageAddrMask ||| flags < 2 ^ 64 := by
    have := mask_lt a
    rw [entry_eq]
    omega
  have nonzero : a &&& pageAddrMask ||| flags ≠ 0 := by
    rw [entry_eq]
    omega
  have other (z : Slot) (hz : IsTable L z) (j : Nat) (hj : j < 512)
      (ne : z ≠ slot 3 a ∨ j ≠ index 3 a) :
      (s.mem.write64 (t.frame (slot 3 a) + 8 * index 3 a)
        (a &&& pageAddrMask ||| flags)).read64 (t.frame z + 8 * j) =
          s.mem.read64 (t.frame z + 8 * j) :=
    Mem.read64_write64_ne _ _ (h.entry_apart (Or.inr ha) hz hi hj ne)
  constructor
  case top => exact h.top
  case shape => exact h.shape
  case inner =>
    intro z hz hzl j hj
    have ne : z ≠ slot 3 a := by
      rintro rfl
      simp [slot] at hzl
    dsimp only
    rw [show (t.setLeaf (pageNo a) _).frame = t.frame from rfl, other z hz j hj (Or.inl ne)]
    exact h.inner z hz hzl j hj
  case leaves =>
    intro q hq j hj
    by_cases here : (3, q) = slot 3 a ∧ j = index 3 a
    · obtain ⟨e, rfl⟩ := here
      have page : 512 * q + index 3 a = pageNo a := by rw [pageNo_eq, ← e]
      rw [e, page]
      simp only [Tree.setLeaf, ↓reduceIte]
      exact Mem.read64_write64 _ _ small
    · have apart : (3, q) ≠ slot 3 a ∨ j ≠ index 3 a := not_and_or.mp here
      have page : 512 * q + j ≠ pageNo a := by
        rw [pageNo_eq]
        intro same
        apply here
        rw [show slot 3 a = (3, (slot 3 a).2) from rfl]
        simp only [Prod.mk.injEq, true_and]
        omega
      simp only [Tree.setLeaf, page, ↓reduceIte]
      rw [other _ (Or.inr hq) j hj apart]
      exact h.leaves q hq j hj
  case word =>
    intro n hn
    by_cases page : n = pageNo a
    · subst page
      refine ⟨⟨a, Set.mem_insert _ _, rfl, by simp [Tree.setLeaf]⟩, ?_⟩
      rw [pageNo_div]
      exact ha
    · simp only [Tree.setLeaf, page, ↓reduceIte] at hn ⊢
      obtain ⟨⟨v, hv, e⟩, up⟩ := h.word n hn
      exact ⟨⟨v, Set.mem_insert_of_mem _ hv, e⟩, up⟩
  case mapped =>
    intro v hv
    by_cases page : pageNo v = pageNo a
    · simp only [Tree.setLeaf, page, ↓reduceIte]
      exact nonzero
    · simp only [Tree.setLeaf, page, ↓reduceIte]
      rcases Set.mem_insert_iff.mp hv with rfl | hv
      · exact absurd rfl page
      · exact h.mapped v hv
  case page => exact h.page
  case handed => exact h.handed
  case inj => exact h.inj
  case placed => exact h.placed
  case total => exact h.total
  case fresh => exact h.fresh
  case log => exact h.log

/-- A leaf entry is either there already or filled in; no table changes. -/
theorem Rep.mapLeaf (h : Rep k p s L t) {a : Nat} (ha : slot 3 a ∈ L.held) :
    ∃ t', Rep k p (s.mapLeaf (t.frame (slot 3 a)) (ptIdx a) a) (L.visit a) t' ∧
      t'.frame = t.frame := by
  have value := h.leaf_entry ha
  unfold Vmm.mapLeaf
  rw [show ptIdx a = index 3 a from rfl]
  dsimp only
  split
  · next there =>
    refine ⟨t, h.visit ?_, rfl⟩
    intro zero
    rw [value, zero] at there
    cases there
  · exact ⟨_, h.setLeaf ha, rfl⟩

/-! ## The walk finds the tree -/

theorem slot_succ_table {l a : Nat} : IsTable L (slot (l + 1) a) ↔ slot (l + 1) a ∈ L.held := by
  constructor
  · rintro (h | h)
    · simp [slot, root] at h
    · exact h
  · exact Or.inr

theorem Rep.tableAt_eq (h : Rep k p s L t) (a : Nat) : ∀ l, l ≤ 3 →
    (IsTable L (slot l a) → tableAt k s.mem a l = some (t.frame (slot l a))) ∧
    (¬ IsTable L (slot l a) → tableAt k s.mem a l = none) := by
  intro l
  induction l with
  | zero =>
    intro _
    rw [slot_zero]
    exact ⟨fun _ => by rw [tableAt, h.top], fun no => absurd (Or.inl rfl) no⟩
  | succ l ih =>
    intro hl
    obtain ⟨there, gone⟩ := ih (by omega)
    rw [slot_succ_table, slot_succ (by omega : l < 3)]
    by_cases hx : IsTable L (slot l a)
    · have link := h.present_iff hx (by simp only [slot]; omega) (index_lt l a)
      rw [tableAt, there hx, Option.bind_some]
      refine ⟨fun hc => ?_, fun hc => ?_⟩
      · rw [if_pos (link.mpr hc), h.next_table hx (by simp only [slot]; omega) (index_lt l a) hc]
      · rw [if_neg fun hp => hc (link.mp hp)]
    · rw [tableAt, gone hx, Option.bind_none]
      exact ⟨fun hc => absurd (h.parent (index_lt l a) hc) hx, fun _ => rfl⟩

theorem Rep.tableAt_some (h : Rep k p s L t) {a l f : Nat} (hl : l < 3) :
    tableAt k s.mem a (l + 1) = some f ↔
      slot (l + 1) a ∈ L.held ∧ f = t.frame (slot (l + 1) a) := by
  obtain ⟨there, gone⟩ := h.tableAt_eq a (l + 1) hl
  rw [slot_succ_table] at there gone
  by_cases hx : slot (l + 1) a ∈ L.held
  · rw [there hx]
    simp [hx, eq_comm]
  · rw [gone hx]
    simp [hx]

theorem Rep.leafAt_some (h : Rep k p s L t) {a e : Nat} :
    leafAt k s.mem a = some e ↔ t.leaf (pageNo a) = e ∧ e ≠ 0 := by
  obtain ⟨there, gone⟩ := h.tableAt_eq a 3 (Nat.le_refl 3)
  rw [slot_succ_table] at there gone
  by_cases hx : slot 3 a ∈ L.held
  · rw [leafAt, there hx, Option.bind_some]
    dsimp only
    rw [h.leaf_entry hx]
    by_cases zero : t.leaf (pageNo a) = 0
    · rw [zero]
      constructor
      · intro none
        cases none
      · rintro ⟨rfl, ne⟩
        exact absurd rfl ne
    · obtain ⟨⟨v, _, _, word⟩, _⟩ := h.word _ zero
      have on : present (t.leaf (pageNo a)) = true := by
        rw [word]
        exact present_entry v
      rw [if_pos on, Option.some.injEq]
      constructor
      · rintro rfl
        exact ⟨rfl, zero⟩
      · exact fun e => e.1
  · rw [leafAt, gone hx, Option.bind_none]
    constructor
    · intro none
      cases none
    · rintro ⟨rfl, ne⟩
      have up := (h.word _ ne).2
      rw [pageNo_div] at up
      exact absurd up hx

end

end KessOS.Vmm
