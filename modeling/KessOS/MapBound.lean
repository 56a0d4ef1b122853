import KessOS.Mapping
import KessOS.OutOfFrames

/-!
# How many frames a call takes

The calls on the frames themselves walk only two paths, since nine frames in a
row lie in at most two regions of two megabytes.

* `Moves`: what nested calls do to the entries of tables;
* `owed`: the frames one of the two paths can still ask for, never more than
  three, and less by one with every frame taken for it (`owed_link`);
* `mapPage_takes`: so a call takes at most six frames for the frames it takes,
  and three for its address.
-/

namespace KessOS.Vmm

open Demand (Ledger Settle Fits)

variable {k : Image} {base n N i : Nat} {s s' t : Vmm}

/-! ## Nine frames in a row -/

/-- The first and the last of nine frames. -/
def OuterFrame (base c : Nat) : Prop := c = base ∨ c = base + 32768

/-- Every frame lies in the region of the first or the last. -/
theorem frame_region (base : Nat) {j : Nat} (hj : j < 9) :
    ∃ c, OuterFrame base c ∧ (base + 4096 * j) / 2097152 = c / 2097152 := by
  by_cases near : (base + 4096 * j) / 2097152 = base / 2097152
  · exact ⟨base, Or.inl rfl, near⟩
  · exact ⟨base + 32768, Or.inr rfl, by omega⟩

theorem index_region {a b : Nat} (same : a / 2097152 = b / 2097152) {l : Nat} (hl : l < 3) :
    index l a = index l b := by
  obtain rfl | rfl | rfl : l = 0 ∨ l = 1 ∨ l = 2 := by omega
  all_goals
    simp only [index_eq]
    omega

/-- Addresses in one region have the same tables. -/
theorem tableAt_region {a b : Nat} (same : a / 2097152 = b / 2097152) (m : Mem) :
    ∀ {l : Nat}, l ≤ 3 → tableAt k m a l = tableAt k m b l := by
  intro l
  induction l with
  | zero => exact fun _ => rfl
  | succ l ih =>
    intro hl
    rw [tableAt, tableAt, ih (by omega), index_region same hl]

/-! ## What nested calls do to entries -/

/-- Present entries outside the frames taken in between stay, and new ones lead
to frames taken since `base`. -/
structure Moves (base : Nat) (s s' : Vmm) : Prop where
  forward : s.placement ≤ s'.placement
  old : ∀ w, w % 8 = 0 → w < s.placement ∨ s'.placement ≤ w →
    present (s.mem.read64 w) = true → s'.mem.read64 w = s.mem.read64 w
  new : ∀ w, w % 8 = 0 → present (s'.mem.read64 w) = true →
    s'.mem.read64 w = s.mem.read64 w ∧ (w < s.placement ∨ s'.placement ≤ w) ∨
      base ≤ s'.mem.read64 w &&& pageAddrMask ∧ s'.mem.read64 w &&& pageAddrMask < s'.placement

theorem Moves.refl (s : Vmm) : Moves base s s :=
  ⟨Nat.le_refl _, fun _ _ _ _ => rfl, fun _ _ _ => Or.inl ⟨rfl, by omega⟩⟩

theorem Moves.trans (h₁ : Moves base s s') (h₂ : Moves base s' t) : Moves base s t := by
  have f₁ := h₁.forward
  have f₂ := h₂.forward
  constructor
  case forward => exact Nat.le_trans f₁ f₂
  case old =>
    intro w hw outside on
    have same := h₁.old w hw (by omega) on
    rw [h₂.old w hw (by omega) (by rw [same]; exact on), same]
  case new =>
    intro w hw on
    cases h₂.new w hw on with
    | inr taken => exact Or.inr taken
    | inl kept =>
      obtain ⟨same, outside₂⟩ := kept
      rw [same] at on ⊢
      cases h₁.new w hw on with
      | inl kept =>
        obtain ⟨before, outside₁⟩ := kept
        exact Or.inl ⟨before, by omega⟩
      | inr taken => exact Or.inr ⟨taken.1, by omega⟩

/-- The next frame is linked. -/
theorem Moves.link (pos : base ≤ s.placement) (aligned : s.placement % 4096 = 0)
    (top : s.placement + 4096 ≤ 4503599627370496) {entry : Nat} (he : entry % 8 = 0)
    (absent : present (s.mem.read64 entry) = false) : Moves base s (s.linked entry) := by
  have value := linked_entry entry top
  have place := linked_placement s entry
  constructor
  case forward => omega
  case old =>
    intro w hw outside on
    have ne : w ≠ entry := by
      rintro rfl
      rw [absent] at on
      cases on
    exact linked_other s (by omega) (by omega)
  case new =>
    intro w hw on
    by_cases here : w = entry
    · apply Or.inr
      rw [here, value, mask_link aligned (by omega)]
      omega
    · by_cases inside : s.placement ≤ w ∧ w < s.placement + 4096
      · rw [linked_fresh s (by omega) (by omega)] at on
        cases on
      · exact Or.inl ⟨linked_other s (by omega) (by omega), by omega⟩

/-- A leaf entry for a frame already taken. -/
theorem Moves.leaf {pt idx f : Nat} (ht : pt % 8 = 0) (aligned : f % 4096 = 0)
    (small : f < 4503599627370496) (lo : base ≤ f) (hi : f < s.placement) :
    Moves base s (s.mapLeaf pt idx f) := by
  unfold mapLeaf
  dsimp only
  split
  · exact Moves.refl s
  · next absent =>
    have value : f &&& pageAddrMask ||| flags = f + 7 := by
      rw [entry_eq, mask_page aligned small]
    rw [value]
    constructor
    case forward => exact Nat.le_refl _
    case old =>
      intro w hw _ on
      have ne : w ≠ pt + 8 * idx := by
        rintro rfl
        exact absent on
      exact Mem.read64_write64_ne _ _ (by omega)
    case new =>
      intro w hw on
      by_cases here : w = pt + 8 * idx
      · apply Or.inr
        rw [here, Mem.read64_write64 _ _ (by omega), mask_link aligned small]
        exact ⟨lo, hi⟩
      · exact Or.inl ⟨Mem.read64_write64_ne _ _ (by omega), Nat.lt_or_ge _ _⟩

/-- A walk through tables that were not taken in between stays. -/
theorem Moves.walk (h : Moves base s s') (aligned : s.placement % 4096 = 0) {a l f : Nat}
    (there : tableAt k s.mem a l = some f)
    (safe : ∀ j, j < l → ∀ g, tableAt k s.mem a j = some g →
      g < s.placement ∨ s'.placement ≤ g) : tableAt k s'.mem a l = some f := by
  apply tableAt_keeps there
  intro j hj g hg on
  have := tableAt_aligned hg
  have := index_lt j a
  have := safe j hj g hg
  exact h.old _ (by omega) (by omega) on

/-- A table that was missing is a frame taken since. -/
theorem Moves.new_table (h : Moves base s s') {a l g f : Nat} (up : tableAt k s.mem a l = some g)
    (up' : tableAt k s'.mem a l = some g) (gone : tableAt k s.mem a (l + 1) = none)
    (there : tableAt k s'.mem a (l + 1) = some f) : base ≤ f ∧ f < s'.placement := by
  obtain ⟨g', hg, on, rfl⟩ := tableAt_succ there
  obtain rfl : g = g' := Option.some.inj (up'.symm.trans hg)
  have := tableAt_aligned hg
  cases h.new _ (by omega) on with
  | inr taken => exact taken
  | inl kept =>
    rw [kept.1] at on
    rw [tableAt_step up on] at gone
    cases gone

/-! ## What a path can still ask for -/

/-- One of the nine frames from `base`, not handed out yet. -/
def Waiting (base : Nat) (s : Vmm) (f : Nat) : Prop := s.placement ≤ f ∧ f < base + 36864

instance (base : Nat) (s : Vmm) (f : Nat) : Decidable (Waiting base s f) :=
  inferInstanceAs (Decidable (_ ∧ _))

/-- The root and the table below it on the path of `c` are not handed out. -/
def Shielded (k : Image) (base : Nat) (s : Vmm) (c : Nat) : Prop :=
  ∀ l, l < 2 → ∀ g, tableAt k s.mem c l = some g → ¬ Waiting base s g

/-- The frames that calls on addresses in the region of `c` can still take. A
table of the third level that waits to be handed out is emptied then, so its
entry may be needed twice. -/
def owed (k : Image) (base : Nat) (s : Vmm) (c : Nat) : Nat :=
  match tableAt k s.mem c 1 with
  | none => 3
  | some _ =>
    match tableAt k s.mem c 2 with
    | none => 2
    | some pdt =>
      (if (tableAt k s.mem c 3).isNone then 1 else 0) + if Waiting base s pdt then 1 else 0

theorem indicator_le {p q : Prop} [Decidable p] [Decidable q] (h : p → q) :
    (if p then 1 else 0 : Nat) ≤ if q then 1 else 0 := by
  by_cases hp : p
  · rw [if_pos hp, if_pos (h hp)]
  · rw [if_neg hp]
    exact Nat.zero_le _

theorem owed_first {c : Nat} (gone : tableAt k s.mem c 1 = none) : owed k base s c = 3 := by
  simp only [owed, gone]

theorem owed_second {c f : Nat} (there : tableAt k s.mem c 1 = some f)
    (gone : tableAt k s.mem c 2 = none) : owed k base s c = 2 := by
  simp only [owed, there, gone]

theorem owed_third {c f : Nat} (there : tableAt k s.mem c 2 = some f) : owed k base s c =
    (if (tableAt k s.mem c 3).isNone then 1 else 0) + if Waiting base s f then 1 else 0 := by
  obtain ⟨g, hg, _⟩ := tableAt_succ there
  simp only [owed, there, hg]

theorem owed_le_two {c f : Nat} (there : tableAt k s.mem c 1 = some f) : owed k base s c ≤ 2 := by
  cases h : tableAt k s.mem c 2 with
  | none => rw [owed_second there h]
  | some g =>
    rw [owed_third h]
    split <;> split <;> omega

theorem owed_le_three (c : Nat) : owed k base s c ≤ 3 := by
  cases h : tableAt k s.mem c 1 with
  | none => rw [owed_first h]
  | some f => exact Nat.le_succ_of_le (owed_le_two h)

theorem owed_le_one {c f : Nat} (there : tableAt k s.mem c 2 = some f)
    (taken : ¬ Waiting base s f) : owed k base s c ≤ 1 := by
  rw [owed_third there, if_neg taken]
  split <;> omega

theorem owed_pos {c l : Nat} (hl : l < 3) (gone : tableAt k s.mem c (l + 1) = none) :
    0 < owed k base s c := by
  cases second : tableAt k s.mem c 2 with
  | none =>
    cases first : tableAt k s.mem c 1 with
    | none => rw [owed_first first]; omega
    | some f => rw [owed_second first second]; omega
  | some f =>
    obtain ⟨g, first, _⟩ := tableAt_succ second
    obtain rfl | rfl | rfl : l = 0 ∨ l = 1 ∨ l = 2 := by omega
    · rw [first] at gone
      cases gone
    · rw [second] at gone
      cases gone
    · rw [owed_third second, gone]
      simp

section
variable (h : Moves base s s') (aligned : s.placement % 4096 = 0)
  (stop : s'.placement ≤ base + 36864) {c : Nat} (shield : Shielded k base s c)
include h aligned stop shield

theorem Moves.shielded_walk {l f : Nat} (hl : l ≤ 2) (there : tableAt k s.mem c l = some f) :
    tableAt k s'.mem c l = some f := by
  apply h.walk aligned there
  intro j hj g hg
  have safe := shield j (by omega) g hg
  simp only [Waiting] at safe
  omega

theorem Moves.shielded : Shielded k base s' c := by
  have forward := h.forward
  intro l hl g hg waits
  simp only [Waiting] at waits
  obtain rfl | rfl : l = 0 ∨ l = 1 := by omega
  · exact shield 0 (by omega) g hg ⟨by omega, waits.2⟩
  · have root : tableAt k s.mem c 0 = some k.pml4 := rfl
    cases old : tableAt k s.mem c 1 with
    | none =>
      have := h.new_table root rfl old hg
      omega
    | some f =>
      have same := h.shielded_walk aligned stop shield (by omega) old
      obtain rfl : f = g := Option.some.inj (same.symm.trans hg)
      exact shield 1 (by omega) f old ⟨by omega, waits.2⟩

/-- The last table of a path stays while the table above it is not handed out. -/
theorem Moves.last_table {f : Nat} (there : tableAt k s.mem c 2 = some f)
    (safe : f < s.placement ∨ s'.placement ≤ f) (gone : tableAt k s'.mem c 3 = none) :
    tableAt k s.mem c 3 = none := by
  cases last : tableAt k s.mem c 3 with
  | none => rfl
  | some g =>
    have kept : tableAt k s'.mem c 3 = some g := by
      apply h.walk aligned last
      intro j hj g' hg
      by_cases two : j = 2
      · subst two
        obtain rfl : f = g' := Option.some.inj (there.symm.trans hg)
        exact safe
      · have waits := shield j (by omega) g' hg
        simp only [Waiting] at waits
        omega
    rw [gone] at kept
    cases kept

/-- **Nothing a nested call does makes a path ask for more.** -/
theorem Moves.owed_le : owed k base s' c ≤ owed k base s c := by
  have forward := h.forward
  cases h₁ : tableAt k s.mem c 1 with
  | none =>
    rw [owed_first h₁]
    exact owed_le_three c
  | some f =>
    have kept₁ := h.shielded_walk aligned stop shield (by omega) h₁
    cases h₂ : tableAt k s.mem c 2 with
    | none =>
      rw [owed_second h₁ h₂]
      exact owed_le_two kept₁
    | some g =>
      have kept₂ := h.shielded_walk aligned stop shield (Nat.le_refl 2) h₂
      by_cases taken : Waiting base s g ∧ ¬ Waiting base s' g
      · -- handed out in between and emptied, but it can be filled only once more
        have one := owed_le_one kept₂ taken.2
        rw [owed_third h₂, if_pos taken.1]
        omega
      · simp only [Waiting] at taken
        have last := h.last_table aligned stop shield h₂ (by omega)
        rw [owed_third h₂, owed_third kept₂]
        apply Nat.add_le_add
        · apply indicator_le
          rw [Option.isNone_iff_eq_none, Option.isNone_iff_eq_none]
          exact last
        · apply indicator_le
          simp only [Waiting]
          omega

end

/-! ## One more frame -/

/-- A frame that is linked on the path of `c` is one that the path asked for. -/
theorem owed_link (pos : base ≤ s.placement) (aligned : s.placement % 4096 = 0)
    (top : s.placement + 4096 ≤ 4503599627370496) (stop : s.placement + 4096 ≤ base + 36864)
    {c : Nat} (shield : Shielded k base s c) {l f : Nat} (hl : l < 3)
    (there : tableAt k s.mem c l = some f)
    (absent : present (s.mem.read64 (f + 8 * index l c)) = false) :
    owed k base (s.linked (f + 8 * index l c)) c + 1 ≤ owed k base s c := by
  have fa := tableAt_aligned there
  have move : Moves base s (s.linked (f + 8 * index l c)) :=
    Moves.link pos aligned top (by omega) absent
  have place := linked_placement s (f + 8 * index l c)
  have stop' : (s.linked (f + 8 * index l c)).placement ≤ base + 36864 := by omega
  have gone := tableAt_stop there absent
  have kept := move.shielded_walk aligned stop' shield (by omega) there
  have on : present ((s.linked (f + 8 * index l c)).mem.read64 (f + 8 * index l c)) = true := by
    rw [linked_entry _ top, present_iff]
    omega
  have link := tableAt_step kept on
  have taken : ¬ Waiting base (s.linked (f + 8 * index l c)) s.placement := by
    simp only [Waiting]
    omega
  rw [linked_entry _ top, mask_link aligned (by omega)] at link
  obtain rfl | rfl | rfl : l = 0 ∨ l = 1 ∨ l = 2 := by omega
  · rw [owed_first gone]
    exact Nat.succ_le_succ (owed_le_two link)
  · rw [owed_second there gone]
    exact Nat.succ_le_succ (owed_le_one link taken)
  · rw [owed_third there, owed_third kept, gone, link]
    simp only [Option.isNone_none, Option.isNone_some, Bool.false_eq_true, ↓reduceIte]
    by_cases waits : Waiting base (s.linked (f + 8 * index 2 c)) f
    · have before : Waiting base s f := by
        simp only [Waiting] at waits ⊢
        omega
      rw [if_pos waits, if_pos before]
    · rw [if_neg waits]
      omega

/-- `i` of the nine frames from `base` are taken, and with what the two paths
still ask for there are at most `budget`. -/
structure Taking (k : Image) (base n budget i : Nat) (s : Vmm) : Prop where
  aligned : base % 4096 = 0
  below : base + 36864 ≤ 4503599627370496
  nine : 9 ≤ n
  placed : s.placement = base + 4096 * i
  count : i + s.nPages = n
  shielded : ∀ c, OuterFrame base c → Shielded k base s c
  few : i + owed k base s base + owed k base s (base + 32768) ≤ budget

theorem Taking.moves {d : Nat} (h : Taking k base n N i s) (move : Moves base s s')
    (placed : s'.placement = base + 4096 * (i + d)) (count : i + d + s'.nPages = n)
    (le : i + d ≤ 9) : Taking k base n (N + d) (i + d) s' := by
  have aligned := h.aligned
  have before := h.placed
  have few := h.few
  have first := move.owed_le (by omega) (by omega) (h.shielded base (Or.inl rfl))
  have last := move.owed_le (by omega) (by omega) (h.shielded (base + 32768) (Or.inr rfl))
  constructor
  case aligned => exact aligned
  case below => exact h.below
  case nine => exact h.nine
  case placed => exact placed
  case count => exact count
  case shielded =>
    exact fun c outer => move.shielded (by omega) (by omega) (h.shielded c outer)
  case few => omega

theorem Taking.mono (h : Taking k base n N i s) {N' : Nat} (le : N ≤ N') :
    Taking k base n N' i s :=
  { h with few := Nat.le_trans h.few le }

/-- The next frame can be handed out and linked. -/
theorem Taking.link (h : Taking k base n N i s) (room : i < 9) (masked : Bool) {entry : Nat}
    (he : entry % 8 = 0) (absent : present (s.mem.read64 entry) = false) :
    s.linkTable masked entry = (base + 4096 * i, s.linked entry) ∧
      Moves base s (s.linked entry) ∧ Taking k base n (N + 1) (i + 1) (s.linked entry) := by
  have aligned := h.aligned
  have below := h.below
  have nine := h.nine
  have placed := h.placed
  have count := h.count
  have move : Moves base s (s.linked entry) :=
    Moves.link (by omega) (by omega) (by omega) he absent
  refine ⟨?_, move, h.moves move ?_ ?_ room⟩
  · rw [linkTable_pos masked entry (by omega) (by omega) (by omega), placed]
  · rw [linked_placement]
    omega
  · rw [linked_nPages]
    omega

/-- A frame for the path of a frame was asked for. -/
theorem Taking.link_asked (h : Taking k base n N i s) (room : i < 9) {j l f : Nat} (hj : j < 9)
    (hl : l < 3) (there : tableAt k s.mem (base + 4096 * j) l = some f)
    (absent : present (s.mem.read64 (f + 8 * index l (base + 4096 * j))) = false) :
    Taking k base n N (i + 1) (s.linked (f + 8 * index l (base + 4096 * j))) := by
  have fa := tableAt_aligned there
  obtain ⟨_, move, next⟩ := h.link room false (by omega) absent
  have aligned := h.aligned
  have below := h.below
  have placed := h.placed
  have few := h.few
  have stop : (s.linked (f + 8 * index l (base + 4096 * j))).placement ≤ base + 36864 := by
    rw [linked_placement]
    omega
  have kept (c : Nat) (outer : OuterFrame base c) := move.owed_le (by omega) stop
    (h.shielded c outer)
  have first := kept base (Or.inl rfl)
  have last := kept (base + 32768) (Or.inr rfl)
  obtain ⟨c, outer, same⟩ := frame_region base hj
  rw [tableAt_region same _ (by omega)] at there
  rw [index_region same hl] at absent next first last ⊢
  have less := owed_link (by omega) (by omega) (by omega) (by omega) (h.shielded c outer) hl
    there absent
  refine { next with few := ?_ }
  rcases outer with rfl | rfl <;> omega

theorem Taking.room (h : Taking k base n N i s) {j l : Nat} (hj : j < 9) (hl : l < 3)
    (gone : tableAt k s.mem (base + 4096 * j) (l + 1) = none) : i < N := by
  have few := h.few
  obtain ⟨c, outer, same⟩ := frame_region base hj
  rw [tableAt_region same _ (by omega)] at gone
  have asks : 0 < owed k base s c := owed_pos hl gone
  rcases outer with rfl | rfl <;> omega

theorem Taking.shield (h : Taking k base n N i s) {j : Nat} (hj : j < 9) :
    Shielded k base s (base + 4096 * j) := by
  obtain ⟨c, outer, same⟩ := frame_region base hj
  intro l hl g hg
  rw [tableAt_region same _ (by omega)] at hg
  exact h.shielded c outer l hl g hg

/-! ## One level -/

/-- A call on a frame already taken. -/
def Nested (k : Image) (base n fuel : Nat) : Prop :=
  ∀ {s s' : Vmm} {N i j : Nat}, Taking k base n N i s → N ≤ 9 → j < i →
    mapPageN k fuel s (base + 4096 * j) = some s' →
      ∃ i', Taking k base n N i' s' ∧ Moves base s s'

section
variable {fuel : Nat} (ih : Nested k base n fuel)
include ih

/-- A level of the call from outside takes one frame for itself at most. -/
theorem enter_takes (h : Taking k base n N i s) (hN : N ≤ 8) {masked : Bool} {table idx : Nat}
    (ht : table % 8 = 0) {r : Vmm × Nat}
    (run : s.enter (mapPageN k fuel) masked table idx = some r) :
    ∃ i', Taking k base n (N + 1) i' r.1 := by
  have few := h.few
  obtain ⟨_, ⟨_, same⟩ | ⟨absent, next⟩⟩ := enter_cases run
  · exact ⟨i, same ▸ h.mono (Nat.le_succ N)⟩
  · obtain ⟨link, _, taking⟩ := h.link (show i < 9 by omega) masked (by omega) absent
    rw [link] at next
    obtain ⟨i', after, _⟩ := ih taking (by omega) (Nat.lt_succ_self i) next
    exact ⟨i', after⟩

/-- A level of a nested call takes what its path was owed. -/
theorem enter_nested (h : Taking k base n N i s) (hN : N ≤ 9) {j : Nat} (hj : j < i) {l : Nat}
    (hl : l < 3) {masked : Bool} {table : Nat}
    (there : tableAt k s.mem (base + 4096 * j) l = some table) {r : Vmm × Nat}
    (run : s.enter (mapPageN k fuel) masked table (index l (base + 4096 * j)) = some r) :
    ∃ i', Taking k base n N i' r.1 ∧ Moves base s r.1 ∧
      (l < 2 → tableAt k r.1.mem (base + 4096 * j) (l + 1) = some r.2) := by
  have few := h.few
  have aligned := tableAt_aligned there
  obtain ⟨follow, ⟨on, same⟩ | ⟨absent, next⟩⟩ := enter_cases run
  · refine ⟨i, same ▸ h, ?_, fun _ => ?_⟩
    · rw [same]
      exact Moves.refl s
    · rw [follow, same]
      exact tableAt_step there on
  · have room := h.room (show j < 9 by omega) hl (tableAt_stop there absent)
    obtain ⟨link, first, _⟩ := h.link (show i < 9 by omega) masked (by omega) absent
    have taking := h.link_asked (show i < 9 by omega) (show j < 9 by omega) hl there absent
    rw [link] at next
    obtain ⟨i', after, move⟩ := ih taking hN (Nat.lt_succ_self i) next
    refine ⟨i', after, first.trans move, fun upper => ?_⟩
    -- the table is none that was handed out in between, so its new entry is still there
    have shield := h.shield (show j < 9 by omega)
    have base_aligned := h.aligned
    have before := h.placed
    have placed := after.placed
    have few' := after.few
    have kept := (first.trans move).shielded_walk (by omega) (by omega) shield (by omega) there
    have safe := shield l upper table there
    simp only [Waiting] at safe
    have below := h.below
    have value := linked_entry (table + 8 * index l (base + 4096 * j))
      (show s.placement + 4096 ≤ 4503599627370496 by omega)
    have place := linked_placement s (table + 8 * index l (base + 4096 * j))
    have on := (present_iff (s.placement + 7)).mpr (by omega)
    rw [← value] at on
    have idx := index_lt l (base + 4096 * j)
    have same := move.old _ (by omega) (by omega) on
    rw [follow]
    apply tableAt_step kept
    rw [same]
    exact on

end

/-! ## Whole calls -/

/-- **A call on a frame stays within the budget.** -/
theorem nested_takes : ∀ fuel, Nested k base n fuel := by
  intro fuel
  induction fuel with
  | zero => intro s s' N i j _ _ _ run; cases run
  | succ fuel ih =>
    intro s s' N i j h hN hj run
    obtain ⟨r₁, r₂, r₃, e₁, e₂, e₃, rfl⟩ := mapPageBody_cases run
    have few := h.few
    obtain ⟨i₁, h₁, m₁, t₁⟩ := enter_nested ih h hN hj (l := 0) (by omega) rfl e₁
    have le₁ := m₁.forward
    rw [h.placed, h₁.placed] at le₁
    obtain ⟨i₂, h₂, m₂, t₂⟩ := enter_nested ih h₁ hN (show j < i₁ by omega) (l := 1) (by omega)
      (t₁ (by omega)) e₂
    have le₂ := m₂.forward
    rw [h₁.placed, h₂.placed] at le₂
    obtain ⟨i₃, h₃, m₃, _⟩ := enter_nested ih h₂ hN (show j < i₂ by omega) (l := 2) (by omega)
      (t₂ (by omega)) e₃
    have le₃ := m₃.forward
    rw [h₂.placed, h₃.placed] at le₃
    have aligned := h.aligned
    have below := h.below
    have pt := enter_aligned e₃
    have placed := h₃.placed
    have move : Moves base r₃.1
        (r₃.1.mapLeaf r₃.2 (ptIdx (base + 4096 * j)) (base + 4096 * j)) :=
      Moves.leaf (by omega) (by omega) (by omega) (by omega) (by omega)
    have same := mapLeaf_mem r₃.1 r₃.2 (ptIdx (base + 4096 * j)) (base + 4096 * j)
    refine ⟨i₃, h₃.moves (d := 0) move ?_ ?_ ?_, ((m₁.trans m₂).trans m₃).trans move⟩
    · rw [same]
      exact placed
    · rw [same]
      exact h₃.count
    · have := h₃.few
      omega

/-- Nine free frames, none of which is the root or the table below it on the
way to one of them. -/
structure Spare (k : Image) (s : Vmm) : Prop where
  nine : 9 ≤ s.nPages
  supply : s.Supply
  unused : ∀ i j l, i < 9 → j < 9 → l < 2 →
    tableAt k s.mem (s.placement + 4096 * i) l ≠ some (s.placement + 4096 * j)

theorem Spare.shielded (h : Spare k s) {i : Nat} (hi : i < 9) :
    Shielded k s.placement s (s.placement + 4096 * i) := by
  have nine := h.nine
  have aligned := (h.supply (by omega)).1
  intro l hl g hg waits
  have := tableAt_aligned hg
  simp only [Waiting] at waits
  apply h.unused i ((g - s.placement) / 4096) l hi (by omega) hl
  rw [hg]
  congr 1
  omega

theorem Spare.taking (h : Spare k s) : Taking k s.placement s.nPages 6 0 s := by
  have nine := h.nine
  obtain ⟨aligned, below⟩ := h.supply (by omega)
  constructor
  case aligned => exact aligned
  case below => omega
  case nine => exact nine
  case placed => rfl
  case count => exact Nat.zero_add _
  case shielded =>
    rintro c (rfl | rfl)
    · exact h.shielded (i := 0) (by omega)
    · exact h.shielded (i := 8) (by omega)
  case few =>
    have first : owed k s.placement s s.placement ≤ 3 := owed_le_three _
    have last : owed k s.placement s (s.placement + 32768) ≤ 3 := owed_le_three _
    omega

theorem Spare.takes (h : Spare k s) (a : Nat) : s.nPages ≤ (s.mapPage k a).nPages + 9 := by
  obtain ⟨r₁, r₂, r₃, e₁, e₂, e₃, same⟩ := mapPageBody_cases (mapPage_run (k := k) s a)
  have nested : Nested k s.placement s.nPages (s.nPages + 3) := nested_takes _
  have root := k.aligned
  have a₁ := enter_aligned e₁
  have a₂ := enter_aligned e₂
  obtain ⟨i₁, h₁⟩ := enter_takes nested h.taking (by omega) (by omega) e₁
  obtain ⟨i₂, h₂⟩ := enter_takes nested h₁ (by omega) (by omega) e₂
  obtain ⟨i₃, h₃⟩ := enter_takes nested h₂ (by omega) (by omega) e₃
  have few := h₃.few
  have count := h₃.count
  rw [same, mapLeaf_mem]
  show s.nPages ≤ r₃.1.nPages + 9
  omega

/-- A segment below a cleared root is spare. -/
theorem Segment.spare {top : Nat} (h : Segment k top s) (low : top ≤ 4503599627370496)
    (cleared : Cleared k s) (nine : 9 ≤ s.nPages) : Spare k s := by
  refine ⟨nine, fun _ => ⟨h.aligned, Nat.le_trans h.below low⟩, fun i j l _ hj hl there => ?_⟩
  have apart := h.apart
  obtain rfl | rfl : l = 0 ∨ l = 1 := by omega
  · have := Option.some.inj there
    omega
  · rw [cleared.no_table] at there
    cases there

/-- **A call returns, and takes at most nine of nine spare frames.** -/
theorem mapPage_takes (s : Vmm) (a : Nat) :
    mapPageN k (s.nPages + 4) s a = some (s.mapPage k a) ∧
      (Spare k s → s.nPages ≤ (s.mapPage k a).nPages + 9) :=
  ⟨mapPage_run s a, fun spare => spare.takes a⟩

theorem mapPage_takes_lowStart :
    lowStart.nPages ≤ (lowStart.mapPage lowRoot 0x40005123).nPages + 9 := by
  have count := (startVmm_one lowRoot (show 0x10000 < 2 ^ 64 by decide)
    (show 16 < 2 ^ 64 by decide) (by decide)).2
  refine (mapPage_takes lowStart 0x40005123).2
    (lowStart_segment.spare (by decide) (startVmm_cleared _ _) ?_)
  rw [lowStart, count]
  decide

/-! ## The root as the ninth frame

The segment begins four pages below 512 GiB, so that its frames lie in two
regions that share no table. -/

def straddlingRoot : Image := ⟨0x8000004000, by decide, by decide, by decide⟩

def straddling : Vmm := startVmm straddlingRoot (initial (oneSegment 0x7FFFFFC000 16)) oneEntry

theorem straddling_start : straddling.placement = 0x7FFFFFC000 ∧ straddling.nPages = 16 :=
  startVmm_one straddlingRoot (by decide) (by decide) (by decide)

/-- The eight frames below the root. -/
def straddlingPlan : Plan where
  base := 0x7FFFFFC000
  lim := 8
  pages := 16
  old := []
  prior := straddling.allocs
  within := by decide
  span := fun _ => by decide

theorem straddling_rep : Rep straddlingRoot straddlingPlan straddling Ledger.empty
    ⟨fun _ => straddlingRoot.pml4, fun _ => 0⟩ := by
  obtain ⟨placed, count⟩ := straddling_start
  refine Rep.start (startVmm_cleared _ _) placed count rfl fun j hj => ?_
  have lim : j < 8 := hj
  show 0x8000004000 ≠ 0x7FFFFFC000 + 4096 * j
  omega

/-- Two levels for the address one terabyte take all eight, and the third is
still missing. -/
theorem straddling_full {L : Ledger Slot Nat} (h : Settle path straddlingPlan.frame
    [slot 1 0x10000000000, slot 2 0x10000000000] Ledger.empty L) :
    L.used = 8 ∧ slot 3 0x10000000000 ∉ L.held := by
  have enough : L.used ≤ 8 := h.used_le ⟨by decide, by decide⟩
  have short : ∀ m, m < 8 → ¬ Fits path straddlingPlan.frame m
      [slot 1 0x10000000000, slot 2 0x10000000000] Ledger.empty := by
    unfold Fits
    decide
  have used : L.used = 8 := by
    by_contra ne
    exact short L.used (by omega) h.fits_self
  refine ⟨used, fun held => ?_⟩
  have whole := (h.append (.skip held (.done L))).fits_self
  rw [used] at whole
  revert whole
  unfold Fits
  decide

theorem enter_nPages {fuel : Nat} {masked : Bool} {table idx : Nat} {r : Vmm × Nat}
    (run : s.enter (mapPageN k fuel) masked table idx = some r) : r.1.nPages ≤ s.nPages := by
  obtain ⟨_, ⟨_, same⟩ | ⟨_, next⟩⟩ := enter_cases run
  · rw [same]
  · have := mapPageN_nPages next
    rw [linkTable_nPages] at this
    omega

/-- Without a table below the root a call takes a frame. -/
theorem cleared_takes {fuel a : Nat} (cleared : Cleared k s) (pos : 0 < s.nPages)
    (run : mapPageN k fuel s a = some s') : s'.nPages + 1 ≤ s.nPages := by
  cases fuel with
  | zero => cases run
  | succ fuel =>
    obtain ⟨r₁, r₂, r₃, e₁, e₂, e₃, rfl⟩ := mapPageBody_cases run
    have first : r₁.1.nPages + 1 ≤ s.nPages := by
      obtain ⟨_, ⟨on, _⟩ | ⟨_, next⟩⟩ := enter_cases e₁
      · rw [cleared _ (show pml4Idx a < 512 from index_lt 0 a), not_present_zero] at on
        cases on
      · have := mapPageN_nPages next
        rw [linkTable_nPages] at this
        omega
    have second := enter_nPages e₂
    have third := enter_nPages e₃
    rw [mapLeaf_mem]
    show r₃.1.nPages + 1 ≤ s.nPages
    omega

/-- The first two levels of the call. -/
theorem straddling_two {r₁ r₂ : Vmm × Nat}
    (e₁ : straddling.enter (mapPageN straddlingRoot (straddling.nPages + 3)) true
      straddlingRoot.pml4 (pml4Idx 0x10000000000) = some r₁)
    (e₂ : r₁.1.enter (mapPageN straddlingRoot (straddling.nPages + 3)) false r₁.2
      (pdpIdx 0x10000000000) = some r₂) :
    ∃ L t, Rep straddlingRoot straddlingPlan r₂.1 L t ∧ L.used = 8 ∧
      slot 2 0x10000000000 ∈ L.held ∧ slot 3 0x10000000000 ∉ L.held ∧
      r₂.2 = t.frame (slot 2 0x10000000000) := by
  have fits : Fits path straddlingPlan.frame 8
      [slot 1 0x10000000000, slot 2 0x10000000000] Ledger.empty := ⟨by decide, by decide⟩
  have top : IsTable Ledger.empty (slot 0 0x10000000000) := Or.inl (slot_zero _)
  cases enter_serves mapPageN_serves straddling_rep (show 0 < 3 by omega) top e₁ with
  | inl fails =>
    refine absurd (fits.mono fun x hx => ?_) (fails.short 8 (Nat.le_refl 8))
    rw [List.mem_singleton.mp hx]
    exact List.mem_cons_self
  | inr found =>
    obtain ⟨L₁, t₁, settle₁, rep₁, _, next₁⟩ := found
    have held₁ := settle₁.covers _ (List.mem_singleton_self _)
    rw [next₁] at e₂
    cases enter_serves mapPageN_serves rep₁ (show 1 < 3 by omega) (Or.inr held₁) e₂ with
    | inl fails => exact absurd (settle₁.fits fits) (fails.short 8 (Nat.le_refl 8))
    | inr found =>
      obtain ⟨L₂, t₂, settle₂, rep₂, _, next₂⟩ := found
      obtain ⟨used, third⟩ := straddling_full (settle₁.append settle₂)
      exact ⟨L₂, t₂, rep₂, used, settle₂.covers _ (List.mem_singleton_self _), third, next₂⟩

/-- The frame for the third level is the root, and the call that maps it finds
no table at all. -/
theorem straddling_takes :
    (straddling.mapPage straddlingRoot 0x10000000000).nPages + 10 ≤ straddling.nPages := by
  have count := straddling_start.2
  obtain ⟨r₁, r₂, r₃, e₁, e₂, e₃, same⟩ :=
    mapPageBody_cases (mapPage_run (k := straddlingRoot) straddling 0x10000000000)
  obtain ⟨L, t, rep, used, held, third, next⟩ := straddling_two e₁ e₂
  have placed : r₂.1.placement = 0x8000004000 := by
    rw [rep.placed, used]
    rfl
  have left : 8 + r₂.1.nPages = 16 := used ▸ rep.total
  have apart : t.frame (slot 2 0x10000000000) ≠ 0x8000004000 := by
    intro root
    have := rep.inj _ _ (Or.inr held) (Or.inl rfl) (root.trans rep.top.symm)
    revert this
    decide
  have aligned := rep.aligned (Or.inr held)
  rw [next] at e₃
  have rest : r₃.1.nPages ≤ 6 := by
    obtain ⟨_, ⟨on, _⟩ | ⟨_, nested⟩⟩ := enter_cases e₃
    · have there := (rep.present_iff (Or.inr held) (show 2 < 3 by omega)
        (index_lt 2 0x10000000000)).mp on
      rw [← slot_succ (show 2 < 3 by omega)] at there
      exact absurd there third
    · rw [linkTable_pos false _ (by omega) (by omega) (by omega)] at nested
      have cleared : Cleared straddlingRoot
          (r₂.1.linked (t.frame (slot 2 0x10000000000) + 8 * pdIdx 0x10000000000)) := by
        intro i hi
        have idx : pdIdx 0x10000000000 < 512 := index_lt 2 0x10000000000
        show Mem.read64 _ (0x8000004000 + 8 * i) = 0
        exact linked_fresh _ (by omega) (by omega)
      have := cleared_takes cleared (by rw [linked_nPages]; omega) nested
      rw [linked_nPages] at this
      omega
  rw [same, mapLeaf_mem, count]
  show r₃.1.nPages + 10 ≤ 16
  omega

/-- The segment is aligned and below 2^48, and the call takes more than nine of
its frames. -/
theorem ninth_frame_root : ∃ (k : Image) (m : Mem) (meminfo : Meminfo) (a : Nat),
    (startVmm k (initial m) meminfo).placement % 4096 = 0 ∧
    (startVmm k (initial m) meminfo).placement +
      4096 * (startVmm k (initial m) meminfo).nPages ≤ 281474976710656 ∧
    9 ≤ (startVmm k (initial m) meminfo).nPages ∧ a < 281474976710656 ∧
    ¬ (startVmm k (initial m) meminfo).nPages ≤
      ((startVmm k (initial m) meminfo).mapPage k a).nPages + 9 := by
  obtain ⟨placed, count⟩ := straddling_start
  have takes := straddling_takes
  refine ⟨straddlingRoot, oneSegment 0x7FFFFFC000 16, oneEntry, 0x10000000000, ?_, ?_, ?_,
    by decide, ?_⟩
  · rw [← straddling, placed]
  · rw [← straddling, placed, count]
    decide
  · rw [← straddling, count]
    decide
  · rw [← straddling]
    omega

/-! ## Runs over free memory -/

theorem Tracked.spare (h : Tracked k s) (nine : 9 ≤ s.nPages) : Spare k s := by
  obtain ⟨⟨p, L, t, rep, all⟩, nonNull⟩ := h
  refine ⟨nine, nonNull.supply, fun i j l _ hj hl there => ?_⟩
  have placed := rep.placed
  have total := rep.total
  obtain ⟨on, off⟩ := rep.tableAt_eq (s.placement + 4096 * i) l (by omega)
  by_cases table : IsTable L (slot l (s.placement + 4096 * i))
  · have fresh := rep.fresh _ table (L.used + j) (by omega) (by omega)
    have same := Option.some.inj (there.symm.trans (on table))
    simp only [Plan.frame] at placed fresh
    omega
  · rw [off table] at there
    cases there

/-- **In every run whose calls are allowed, nine free frames are enough for any
further call.** -/
theorem reaches_takes (h : Reaches k s) (nine : 9 ≤ s.nPages) (a : Nat) :
    s.nPages ≤ (s.mapPage k a).nPages + 9 :=
  ((reaches_tracked h).spare nine).takes a

end KessOS.Vmm
