import Mathlib.Logic.Relation

/-!
# Transition systems

A system is a relation `Step l s t`: the party or event `l` takes it from `s`
to `t`.

* `Leads.invariant`: what every step keeps, every finite run keeps;
* `Simulation.run`: a simulation of steps is one of runs;
* `Run.awaits`: what holds until somebody moves, holds when he does;
* `Run.eventually`: an infinite run on which some measure goes down until a
  goal is reached, reaches the goal.
-/

namespace KessOS.Transition

variable {σ τ ℓ ℓ' : Type*} {Step : ℓ → σ → σ → Prop} {Step' : ℓ' → τ → τ → Prop}

/-- One step of anyone. -/
def Moves (Step : ℓ → σ → σ → Prop) (s t : σ) : Prop := ∃ l, Step l s t

/-- A finite run. -/
abbrev Leads (Step : ℓ → σ → σ → Prop) : σ → σ → Prop := Relation.ReflTransGen (Moves Step)

theorem Leads.next {s t u : σ} {l : ℓ} (run : Leads Step s t) (step : Step l t u) :
    Leads Step s u :=
  run.tail ⟨l, step⟩

theorem Leads.first {s t u : σ} {l : ℓ} (step : Step l s t) (run : Leads Step t u) :
    Leads Step s u :=
  .head ⟨l, step⟩ run

theorem Leads.invariant {P : σ → Prop} (keep : ∀ l s t, P s → Step l s t → P t) {s t : σ}
    (run : Leads Step s t) (start : P s) : P t := by
  induction run with
  | refl => exact start
  | tail _ moves ih =>
    obtain ⟨l, step⟩ := moves
    exact keep l _ _ ih step

/-- A quantity that no step decreases. -/
theorem Leads.monotone {f : σ → Nat} (grow : ∀ l s t, Step l s t → f s ≤ f t) {s t : σ}
    (run : Leads Step s t) : f s ≤ f t :=
  run.invariant (fun l u v le step => Nat.le_trans le (grow l u v step)) (Nat.le_refl _)

/-! ## Refinement -/

/-- Related states stay related, the second system taking any number of steps
for one of the first. -/
def Simulation (Step : ℓ → σ → σ → Prop) (Step' : ℓ' → τ → τ → Prop) (R : σ → τ → Prop) : Prop :=
  ∀ l s s' t, R s t → Step l s s' → ∃ t', Leads Step' t t' ∧ R s' t'

theorem Simulation.run {R : σ → τ → Prop} (sim : Simulation Step Step' R) {s s' : σ} {t : τ}
    (related : R s t) (run : Leads Step s s') : ∃ t', Leads Step' t t' ∧ R s' t' := by
  induction run with
  | refl => exact ⟨t, .refl, related⟩
  | tail _ moves ih =>
    obtain ⟨l, step⟩ := moves
    obtain ⟨u, before, related⟩ := ih
    obtain ⟨v, after, related⟩ := sim l _ _ u related step
    exact ⟨v, before.trans after, related⟩

/-! ## Infinite runs -/

structure Run (Step : ℓ → σ → σ → Prop) where
  state : Nat → σ
  label : Nat → ℓ
  step : ∀ n, Step (label n) (state n) (state (n + 1))

namespace Run
variable (run : Run Step)

theorem leads {n m : Nat} (le : n ≤ m) : Leads Step (run.state n) (run.state m) := by
  induction le with
  | refl => exact .refl
  | @step m _ ih => exact ih.next (run.step m)

/-- What the steps of others keep still holds at the next step labelled `l`. -/
theorem awaits {P : σ → Prop} {l : ℓ} [DecidableEq ℓ]
    (keep : ∀ k s t, k ≠ l → P s → Step k s t → P t) {n m : Nat} (here : P (run.state n))
    (later : n ≤ m) (occurs : run.label m = l) :
    ∃ k, n ≤ k ∧ k ≤ m ∧ P (run.state k) ∧ run.label k = l := by
  obtain ⟨d, rfl⟩ := Nat.exists_eq_add_of_le later
  induction d generalizing n with
  | zero => exact ⟨n, Nat.le_refl n, Nat.le_refl n, here, occurs⟩
  | succ d ih =>
    by_cases now : run.label n = l
    · exact ⟨n, Nat.le_refl n, later, here, now⟩
    · have shift : n + 1 + d = n + (d + 1) := by omega
      obtain ⟨k, after, inside, holds, labelled⟩ :=
        ih (keep _ _ _ now here (run.step n)) (Nat.le_add_right _ _) (shift ▸ occurs)
      exact ⟨k, Nat.le_of_succ_le after, shift ▸ inside, holds, labelled⟩

/-- A measure that goes down again and again until the goal. -/
theorem eventually (goal : σ → Prop) (f : σ → Nat)
    (progress : ∀ n, ¬ goal (run.state n) →
      ∃ m, n ≤ m ∧ (goal (run.state m) ∨ f (run.state m) < f (run.state n))) (n : Nat) :
    ∃ m, n ≤ m ∧ goal (run.state m) := by
  generalize left : f (run.state n) = k
  induction k using Nat.strongRecOn generalizing n with
  | ind k ih =>
    by_cases here : goal (run.state n)
    · exact ⟨n, Nat.le_refl n, here⟩
    · obtain ⟨m, later, reached | less⟩ := progress n here
      · exact ⟨m, later, reached⟩
      · obtain ⟨u, beyond, reached⟩ := ih _ (left ▸ less) m rfl
        exact ⟨u, Nat.le_trans later beyond, reached⟩

end Run

end KessOS.Transition
