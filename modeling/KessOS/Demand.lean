import Mathlib.Data.Finset.Card
import Mathlib.Data.Finset.Union
import Mathlib.Order.Interval.Finset.Nat

/-!
# Allocation that feeds its own demand

Serving an address needs a list of slots. Each slot is filled once, with the
next frame of a fixed supply, and that frame is itself an address to be served.

* `Settle`, `Serve`, `ServeAll`: the depth-first procedure, as a relation;
* `Settle.card_used`, `Settle.reason`, `Settle.frames`: one frame a slot, no
  slot without a reason, every frame taken is served;
* `Fits`: `m` frames cover everything asked for, including by themselves;
* `serveAll_least`: the procedure stops at the least number of frames that
  fits, so the order of the requests does not matter (`serveAll_used_eq`).
-/

namespace KessOS.Demand

variable {σ α : Type}

/-- The slots filled, the number of frames used for it, and the addresses served. -/
structure Ledger (σ α : Type) where
  held : Finset σ
  used : ℕ
  visited : Set α

namespace Ledger

section
variable [DecidableEq σ]

/-- Slot `x` receives the next frame. -/
def take (L : Ledger σ α) (x : σ) : Ledger σ α :=
  { L with held := insert x L.held, used := L.used + 1 }

@[simp] theorem take_held (L : Ledger σ α) (x : σ) : (L.take x).held = insert x L.held := rfl
@[simp] theorem take_used (L : Ledger σ α) (x : σ) : (L.take x).used = L.used + 1 := rfl
@[simp] theorem take_visited (L : Ledger σ α) (x : σ) : (L.take x).visited = L.visited := rfl

end

def visit (L : Ledger σ α) (a : α) : Ledger σ α :=
  { L with visited := insert a L.visited }

@[simp] theorem visit_held (L : Ledger σ α) (a : α) : (L.visit a).held = L.held := rfl
@[simp] theorem visit_used (L : Ledger σ α) (a : α) : (L.visit a).used = L.used := rfl
@[simp] theorem visit_visited (L : Ledger σ α) (a : α) :
    (L.visit a).visited = insert a L.visited := rfl

def empty : Ledger σ α := ⟨∅, 0, ∅⟩

end Ledger

variable [DecidableEq σ] (path : α → List σ) (frame : ℕ → α)

/-- Fill the missing slots of a list in order. A frame is served at once,
before the next slot of the list is looked at. -/
inductive Settle : List σ → Ledger σ α → Ledger σ α → Prop
  | done (L : Ledger σ α) : Settle [] L L
  | skip {x : σ} {xs : List σ} {L L' : Ledger σ α} :
      x ∈ L.held → Settle xs L L' → Settle (x :: xs) L L'
  | take {x : σ} {xs : List σ} {L L₁ L₂ : Ledger σ α} : x ∉ L.held →
      Settle (path (frame L.used)) (L.take x) L₁ →
      Settle xs (L₁.visit (frame L.used)) L₂ → Settle (x :: xs) L L₂

def Serve (a : α) (L L' : Ledger σ α) : Prop :=
  ∃ L₁, Settle path frame (path a) L L₁ ∧ L' = L₁.visit a

inductive ServeAll : List α → Ledger σ α → Ledger σ α → Prop
  | nil (L : Ledger σ α) : ServeAll [] L L
  | cons {a : α} {as : List α} {L L₁ L₂ : Ledger σ α} :
      Serve path frame a L L₁ → ServeAll as L₁ L₂ → ServeAll (a :: as) L L₂

variable {path frame}

theorem Settle.append {xs ys : List σ} {L L₁ L₂ : Ledger σ α}
    (h : Settle path frame xs L L₁) (h' : Settle path frame ys L₁ L₂) :
    Settle path frame (xs ++ ys) L L₂ := by
  induction h with
  | done => exact h'
  | skip hx _ ih => exact .skip hx (ih h')
  | take hx first _ _ ih => exact .take hx first (ih h')

theorem Settle.held_mono {xs : List σ} {L L' : Ledger σ α} (h : Settle path frame xs L L') :
    L.held ⊆ L'.held := by
  induction h with
  | done => exact Finset.Subset.refl _
  | skip _ _ ih => exact ih
  | take _ _ _ ih₁ ih₂ =>
    exact (Finset.subset_insert _ _).trans (ih₁.trans ih₂)

theorem Settle.used_mono {xs : List σ} {L L' : Ledger σ α} (h : Settle path frame xs L L') :
    L.used ≤ L'.used := by
  induction h with
  | done => exact Nat.le_refl _
  | skip _ _ ih => exact ih
  | take _ _ _ ih₁ ih₂ => simp only [Ledger.take_used, Ledger.visit_used] at ih₁ ih₂; omega

/-- Exactly one frame goes into each newly filled slot. -/
theorem Settle.card_used {xs : List σ} {L L' : Ledger σ α} (h : Settle path frame xs L L') :
    L'.held.card + L.used = L.held.card + L'.used := by
  induction h with
  | done => rfl
  | skip _ _ ih => exact ih
  | take hx _ _ ih₁ ih₂ =>
    simp only [Ledger.take_held, Ledger.take_used, Ledger.visit_held, Ledger.visit_used,
      Finset.card_insert_of_notMem hx] at ih₁ ih₂
    omega

theorem Settle.covers {xs : List σ} {L L' : Ledger σ α} (h : Settle path frame xs L L') :
    ∀ x ∈ xs, x ∈ L'.held := by
  induction h with
  | done => simp
  | @skip x xs L L' hx rest ih =>
    intro y hy
    rcases List.mem_cons.mp hy with rfl | hy
    · exact rest.held_mono hx
    · exact ih y hy
  | @take x xs L L₁ L₂ hx first rest _ ih =>
    intro y hy
    rcases List.mem_cons.mp hy with rfl | hy
    · exact rest.held_mono (first.held_mono (Finset.mem_insert_self _ _))
    · exact ih y hy

/-- Every frame taken on the way has all of its own slots in the end. -/
theorem Settle.frames {xs : List σ} {L L' : Ledger σ α} (h : Settle path frame xs L L') :
    ∀ j, L.used ≤ j → j < L'.used → ∀ x ∈ path (frame j), x ∈ L'.held := by
  induction h with
  | done => intro j h₁ h₂; omega
  | skip _ _ ih => exact ih
  | @take x xs L L₁ L₂ hx first rest ih₁ ih₂ =>
    intro j lo hi y hy
    simp only [Ledger.take_used, Ledger.visit_used] at ih₁ ih₂
    by_cases this : j = L.used
    · subst this
      exact rest.held_mono (first.covers y hy)
    · by_cases inner : j < L₁.used
      · exact rest.held_mono (ih₁ j (by omega) inner y hy)
      · exact ih₂ j (by omega) hi y hy

theorem Settle.visited_iff {xs : List σ} {L L' : Ledger σ α} (h : Settle path frame xs L L') :
    ∀ a, a ∈ L'.visited ↔ a ∈ L.visited ∨ ∃ j, L.used ≤ j ∧ j < L'.used ∧ a = frame j := by
  induction h with
  | done =>
    intro a
    constructor
    · exact Or.inl
    · rintro (h | ⟨j, lo, hi, _⟩)
      · exact h
      · omega
  | skip _ _ ih => exact ih
  | @take x xs L L₁ L₂ hx first rest ih₁ ih₂ =>
    intro a
    have u₁ := first.used_mono
    have u₂ := rest.used_mono
    simp only [Ledger.take_used, Ledger.visit_used, Ledger.take_visited, Ledger.visit_visited,
      Set.mem_insert_iff] at ih₁ ih₂ u₁ u₂
    rw [ih₂, ih₁]
    constructor
    · rintro ((rfl | h | ⟨j, lo, hi, rfl⟩) | ⟨j, lo, hi, rfl⟩)
      · exact Or.inr ⟨L.used, by omega, by omega, rfl⟩
      · exact Or.inl h
      · exact Or.inr ⟨j, by omega, by omega, rfl⟩
      · exact Or.inr ⟨j, by omega, by omega, rfl⟩
    · rintro (h | ⟨j, lo, hi, rfl⟩)
      · exact Or.inl (Or.inr (Or.inl h))
      · by_cases this : j = L.used
        · exact Or.inl (Or.inl (by rw [this]))
        · by_cases inner : j < L₁.used
          · exact Or.inl (Or.inr (Or.inr ⟨j, by omega, inner, rfl⟩))
          · exact Or.inr ⟨j, by omega, hi, rfl⟩

/-! ## What the requests and the first frames ask for -/

variable (path frame) in
/-- The slots a list of slots and the frames numbered `u` to `m` ask for. -/
def demand (xs : List σ) (u m : ℕ) : Finset σ :=
  xs.toFinset ∪ (Finset.Ico u m).biUnion (fun j => (path (frame j)).toFinset)

theorem mem_demand {xs : List σ} {u m : ℕ} {x : σ} :
    x ∈ demand path frame xs u m ↔
      x ∈ xs ∨ ∃ j, u ≤ j ∧ j < m ∧ x ∈ path (frame j) := by
  simp only [demand, Finset.mem_union, List.mem_toFinset, Finset.mem_biUnion, Finset.mem_Ico]
  constructor
  · rintro (h | ⟨j, ⟨lo, hi⟩, h⟩)
    · exact Or.inl h
    · exact Or.inr ⟨j, lo, hi, h⟩
  · rintro (h | ⟨j, lo, hi, h⟩)
    · exact Or.inl h
    · exact Or.inr ⟨j, ⟨lo, hi⟩, h⟩

/-- No slot is filled without a request or a frame that asks for it. -/
theorem Settle.reason {xs : List σ} {L L' : Ledger σ α} (h : Settle path frame xs L L') :
    L'.held ⊆ L.held ∪ demand path frame xs L.used L'.used := by
  induction h with
  | done => exact Finset.subset_union_left
  | @skip x xs L L' hx _ ih =>
    intro y hy
    cases Finset.mem_union.mp (ih hy) with
    | inl h => exact Finset.mem_union_left _ h
    | inr h =>
      refine Finset.mem_union_right _ (mem_demand.mpr ?_)
      cases mem_demand.mp h with
      | inl h => exact Or.inl (List.mem_cons_of_mem _ h)
      | inr h => exact Or.inr h
  | @take x xs L L₁ L₂ hx first rest ih₁ ih₂ =>
    intro y hy
    have u₁ := first.used_mono
    have u₂ := rest.used_mono
    simp only [Ledger.take_used, Ledger.visit_used] at u₁ u₂
    simp only [Finset.mem_union, mem_demand, List.mem_cons]
    cases Finset.mem_union.mp (ih₂ hy) with
    | inl h =>
      cases Finset.mem_union.mp (ih₁ h) with
      | inl h =>
        rcases Finset.mem_insert.mp h with rfl | h
        · exact Or.inr (Or.inl (Or.inl rfl))
        · exact Or.inl h
      | inr h =>
        simp only [mem_demand, Ledger.take_used] at h
        cases h with
        | inl h => exact Or.inr (Or.inr ⟨L.used, by omega, by omega, h⟩)
        | inr found =>
          obtain ⟨j, lo, hi, h⟩ := found
          exact Or.inr (Or.inr ⟨j, by omega, by omega, h⟩)
    | inr h =>
      simp only [mem_demand, Ledger.visit_used] at h
      cases h with
      | inl h => exact Or.inr (Or.inl (Or.inr h))
      | inr found =>
        obtain ⟨j, lo, hi, h⟩ := found
        exact Or.inr (Or.inr ⟨j, by omega, by omega, h⟩)

/-- The end result is exactly what was held, the request, and what the frames
taken for it ask for. -/
theorem Settle.held_eq {xs : List σ} {L L' : Ledger σ α} (h : Settle path frame xs L L') :
    L'.held = L.held ∪ demand path frame xs L.used L'.used := by
  apply Finset.Subset.antisymm h.reason
  intro x hx
  cases Finset.mem_union.mp hx with
  | inl hx => exact h.held_mono hx
  | inr hx =>
    cases mem_demand.mp hx with
    | inl hx => exact h.covers x hx
    | inr found =>
      obtain ⟨j, lo, hi, hx⟩ := found
      exact h.frames j lo hi x hx

/-! ## The least number of frames -/

variable (path frame) in
/-- `m` frames are enough for a list of slots: what is still missing, for the
list and for the frames up to `m`, is no more than the frames left up to `m`. -/
def Fits (m : ℕ) (xs : List σ) (L : Ledger σ α) : Prop :=
  L.used ≤ m ∧
    (L.held ∪ demand path frame xs L.used m).card + L.used ≤ L.held.card + m

theorem Fits.mono {m : ℕ} {xs ys : List σ} {L : Ledger σ α}
    (h : Fits path frame m ys L) (hs : ∀ x ∈ xs, x ∈ ys) : Fits path frame m xs L := by
  refine ⟨h.1, ?_⟩
  have sub : L.held ∪ demand path frame xs L.used m ⊆ L.held ∪ demand path frame ys L.used m := by
    apply Finset.union_subset_union_right
    intro x hx
    refine mem_demand.mpr ((mem_demand.mp hx).imp_left (hs x))
  have := Finset.card_le_card sub
  have := h.2
  omega

/-- A missing slot leaves room for one more frame, and that frame's own slots
still fit afterwards. -/
theorem Fits.take {m : ℕ} {x : σ} {xs : List σ} {L : Ledger σ α}
    (h : Fits path frame m (x :: xs) L) (hx : x ∉ L.held) :
    L.used < m ∧ Fits path frame m (path (frame L.used) ++ xs) (L.take x) := by
  have asked : insert x L.held ⊆ L.held ∪ demand path frame (x :: xs) L.used m := by
    intro y hy
    rcases Finset.mem_insert.mp hy with rfl | hy
    · exact Finset.mem_union_right _ (mem_demand.mpr (Or.inl List.mem_cons_self))
    · exact Finset.mem_union_left _ hy
  have count := Finset.card_le_card asked
  rw [Finset.card_insert_of_notMem hx] at count
  have h₂ := h.2
  have room : L.used < m := by omega
  refine ⟨room, by simp only [Ledger.take_used]; omega, ?_⟩
  have sub : (L.take x).held ∪ demand path frame (path (frame L.used) ++ xs) (L.used + 1) m ⊆
      L.held ∪ demand path frame (x :: xs) L.used m := by
    apply Finset.union_subset asked
    intro y hy
    refine Finset.mem_union_right _ (mem_demand.mpr ?_)
    cases mem_demand.mp hy with
    | inl h =>
      cases List.mem_append.mp h with
      | inl h => exact Or.inr ⟨L.used, Nat.le_refl _, room, h⟩
      | inr h => exact Or.inl (List.mem_cons_of_mem _ h)
    | inr found =>
      obtain ⟨j, lo, hi, h⟩ := found
      exact Or.inr ⟨j, by omega, hi, h⟩
  have := Finset.card_le_card sub
  simp only [Ledger.take_held, Ledger.take_used, Finset.card_insert_of_notMem hx] at this ⊢
  omega

/-- What fits before part of the list is settled still fits for the rest. -/
theorem Settle.fits {m : ℕ} {xs ys : List σ} {L L' : Ledger σ α}
    (h : Settle path frame xs L L') (hf : Fits path frame m (xs ++ ys) L) :
    Fits path frame m ys L' := by
  induction h generalizing ys with
  | done => exact hf
  | skip _ _ ih => exact ih (hf.mono (fun x hx => List.mem_cons_of_mem _ hx))
  | @take x xs L L₁ L₂ hx _ _ ih₁ ih₂ =>
    have step := (Fits.take hf hx).2
    have after := ih₁ step
    exact ih₂ after

theorem Settle.used_le {m : ℕ} {xs : List σ} {L L' : Ledger σ α}
    (h : Settle path frame xs L L') (hf : Fits path frame m xs L) : L'.used ≤ m := by
  have whole : Fits path frame m (xs ++ []) L := by simpa using hf
  exact (h.fits whole).1

/-- A settled list fits in the number of frames it ended with. -/
theorem Settle.fits_self {xs : List σ} {L L' : Ledger σ α} (h : Settle path frame xs L L') :
    Fits path frame L'.used xs L := by
  refine ⟨h.used_mono, ?_⟩
  rw [← h.held_eq]
  exact h.card_used.le

/-! ## Whole sequences of requests -/

theorem Serve.settle {a : α} {L L' : Ledger σ α} (h : Serve path frame a L L') :
    L'.held = L.held ∪ demand path frame (path a) L.used L'.used ∧
    L'.held.card + L.used = L.held.card + L'.used ∧ L.used ≤ L'.used := by
  obtain ⟨L₁, h, rfl⟩ := h
  exact ⟨h.held_eq, h.card_used, h.used_mono⟩

theorem Serve.visited_iff {a : α} {L L' : Ledger σ α} (h : Serve path frame a L L') (b : α) :
    b ∈ L'.visited ↔
      b = a ∨ b ∈ L.visited ∨ ∃ j, L.used ≤ j ∧ j < L'.used ∧ b = frame j := by
  obtain ⟨L₁, h, rfl⟩ := h
  simp only [Ledger.visit_visited, Set.mem_insert_iff, Ledger.visit_used, h.visited_iff b]

/-- A whole sequence settles the paths of its requests one after another. -/
theorem ServeAll.held_eq {as : List α} {L L' : Ledger σ α} (h : ServeAll path frame as L L') :
    L'.held = L.held ∪ demand path frame (as.flatMap path) L.used L'.used ∧
    L'.held.card + L.used = L.held.card + L'.used ∧ L.used ≤ L'.used := by
  induction h with
  | nil L =>
    refine ⟨?_, rfl, Nat.le_refl _⟩
    ext x
    simp only [Finset.mem_union, mem_demand, List.flatMap_nil, List.not_mem_nil, false_or]
    constructor
    · exact Or.inl
    · rintro (h | ⟨j, lo, hi, _⟩)
      · exact h
      · omega
  | @cons a as L L₁ L₂ first _ ih =>
    obtain ⟨e₁, c₁, u₁⟩ := first.settle
    obtain ⟨e₂, c₂, u₂⟩ := ih
    refine ⟨?_, by omega, by omega⟩
    rw [e₂, e₁]
    ext x
    simp only [Finset.mem_union, mem_demand, List.flatMap_cons, List.mem_append]
    constructor
    · rintro ((h | h | ⟨j, lo, hi, h⟩) | h | ⟨j, lo, hi, h⟩)
      · exact Or.inl h
      · exact Or.inr (Or.inl (Or.inl h))
      · exact Or.inr (Or.inr ⟨j, by omega, by omega, h⟩)
      · exact Or.inr (Or.inl (Or.inr h))
      · exact Or.inr (Or.inr ⟨j, by omega, by omega, h⟩)
    · rintro (h | (h | h) | ⟨j, lo, hi, h⟩)
      · exact Or.inl (Or.inl h)
      · exact Or.inl (Or.inr (Or.inl h))
      · exact Or.inr (Or.inl h)
      · by_cases inner : j < L₁.used
        · exact Or.inl (Or.inr (Or.inr ⟨j, by omega, inner, h⟩))
        · exact Or.inr (Or.inr ⟨j, by omega, hi, h⟩)

theorem ServeAll.visited_iff {as : List α} {L L' : Ledger σ α}
    (h : ServeAll path frame as L L') (b : α) :
    b ∈ L'.visited ↔
      b ∈ as ∨ b ∈ L.visited ∨ ∃ j, L.used ≤ j ∧ j < L'.used ∧ b = frame j := by
  induction h with
  | nil L =>
    simp only [List.not_mem_nil, false_or]
    constructor
    · exact Or.inl
    · rintro (h | ⟨j, lo, hi, _⟩)
      · exact h
      · omega
  | @cons a as L L₁ L₂ first rest ih =>
    have u₁ := first.settle.2.2
    have u₂ := rest.held_eq.2.2
    rw [ih, first.visited_iff, List.mem_cons]
    constructor
    · rintro (h | (h | h | ⟨j, lo, hi, h⟩) | ⟨j, lo, hi, h⟩)
      · exact Or.inl (Or.inr h)
      · exact Or.inl (Or.inl h)
      · exact Or.inr (Or.inl h)
      · exact Or.inr (Or.inr ⟨j, by omega, by omega, h⟩)
      · exact Or.inr (Or.inr ⟨j, by omega, by omega, h⟩)
    · rintro ((h | h) | h | ⟨j, lo, hi, h⟩)
      · exact Or.inr (Or.inl (Or.inl h))
      · exact Or.inl h
      · exact Or.inr (Or.inl (Or.inr (Or.inl h)))
      · by_cases inner : j < L₁.used
        · exact Or.inr (Or.inl (Or.inr (Or.inr ⟨j, by omega, inner, h⟩)))
        · exact Or.inr (Or.inr ⟨j, by omega, hi, h⟩)

/-- What fits for a sequence still fits for the rest after its first request. -/
theorem Serve.fits {m : ℕ} {a : α} {ys : List σ} {L L' : Ledger σ α}
    (h : Serve path frame a L L') (hf : Fits path frame m (path a ++ ys) L) :
    Fits path frame m ys L' := by
  obtain ⟨L₁, h, rfl⟩ := h
  exact h.fits hf

theorem ServeAll.used_le {m : ℕ} {as : List α} {L L' : Ledger σ α}
    (h : ServeAll path frame as L L') (hf : Fits path frame m (as.flatMap path) L) :
    L'.used ≤ m := by
  induction h with
  | nil => exact hf.1
  | cons first _ ih => exact ih (first.fits hf)

theorem ServeAll.fits_self {as : List α} {L L' : Ledger σ α} (h : ServeAll path frame as L L') :
    Fits path frame L'.used (as.flatMap path) L := by
  obtain ⟨e, c, u⟩ := h.held_eq
  refine ⟨u, ?_⟩
  rw [← e]
  exact c.le

/-- **The count is the least that fits.** It can be stated with no order of
requests and no order of frames. -/
theorem serveAll_least {as : List α} {L L' : Ledger σ α} (h : ServeAll path frame as L L') :
    IsLeast {m | Fits path frame m (as.flatMap path) L} L'.used :=
  ⟨h.fits_self, fun _ hm => h.used_le hm⟩

/-- Two sequences that ask for the same slots use the same number of frames. -/
theorem serveAll_used_eq {as bs : List α} {L L₁ L₂ : Ledger σ α}
    (same : ∀ x, x ∈ as.flatMap path ↔ x ∈ bs.flatMap path)
    (h₁ : ServeAll path frame as L L₁) (h₂ : ServeAll path frame bs L L₂) :
    L₁.used = L₂.used := by
  apply (serveAll_least h₁).unique
  refine ⟨h₂.fits_self.mono fun x hx => (same x).mp hx, fun m hm => h₂.used_le ?_⟩
  exact Fits.mono hm fun x hx => (same x).mpr hx

end KessOS.Demand
