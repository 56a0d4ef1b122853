import Mathlib.Algebra.BigOperators.Group.Finset.Basic
import Mathlib.Algebra.Order.BigOperators.Group.Finset
import Mathlib.Tactic.IntervalCases
import KessOS.Bytes
import KessOS.Transition

/-!
# The mutex

`mutex_lock` sets a byte until it finds that the byte was clear, `mutex_unlock`
clears it. Any number of parties use the byte around sections of accesses to
shared data, in any interleaving of single accesses.

* `leads_guarded`: the byte is set while a party is inside, and one at most is;
* `sections_serial`: the data is what whole sections, run one after another,
  make of it;
* `fair_run_completes`: where every party that has something to do moves again,
  all sections end.
-/

namespace KessOS.Lock

open Transition

variable {π α : Type} [DecidableEq π]

/-- `__atomic_test_and_set`: whether the byte was set, and the memory with it set. -/
def testAndSet (lock : Nat) (m : Mem) : Bool × Mem := (m lock != 0, m.write8 lock 1)

/-- `__atomic_clear`, the body of `mutex_unlock`. -/
def mutexUnlock (lock : Nat) (m : Mem) : Mem := m.write8 lock 0

/-- Where a party stands: in its own code, in the loop of `mutex_lock`, or
behind it with accesses left before `mutex_unlock`. -/
inductive Stage (α : Type) where
  | outside
  | spinning
  | inside (rest : List (α → α))

/-- Memory, the shared data, and what each party is doing and has yet to do. -/
structure World (π α : Type) where
  mem : Mem
  data : α
  stage : π → Stage α
  todo : π → List (List (α → α))

namespace World

def setStage (w : World π α) (p : π) (stage : Stage α) : π → Stage α :=
  Function.update w.stage p stage

def Inside (w : World π α) (p : π) : Prop := ∃ rest, w.stage p = .inside rest

/-- Nothing left to do. -/
def Done (w : World π α) (p : π) : Prop := w.stage p = .outside ∧ w.todo p = []

end World

/-- A step of a party, or of others elsewhere in memory. -/
inductive Step (lock : Nat) : Option π → World π α → World π α → Prop where
  | call {w : World π α} (p : π) (fs : List (α → α)) (rest : List (List (α → α)))
      (outside : w.stage p = .outside) (next : w.todo p = fs :: rest) :
      Step lock (some p) w { w with stage := w.setStage p .spinning }
  | again {w : World π α} (p : π) (spinning : w.stage p = .spinning)
      (wasSet : (testAndSet lock w.mem).1 = true) :
      Step lock (some p) w { w with mem := (testAndSet lock w.mem).2 }
  | enter {w : World π α} (p : π) (fs : List (α → α)) (rest : List (List (α → α)))
      (spinning : w.stage p = .spinning) (next : w.todo p = fs :: rest)
      (wasClear : (testAndSet lock w.mem).1 = false) :
      Step lock (some p) w
        { w with
          mem := (testAndSet lock w.mem).2
          stage := w.setStage p (.inside fs)
          todo := Function.update w.todo p rest }
  | access {w : World π α} (p : π) (f : α → α) (rest : List (α → α))
      (inside : w.stage p = .inside (f :: rest)) :
      Step lock (some p) w { w with data := f w.data, stage := w.setStage p (.inside rest) }
  | unlock {w : World π α} (p : π) (inside : w.stage p = .inside []) :
      Step lock (some p) w
        { w with mem := mutexUnlock lock w.mem, stage := w.setStage p .outside }
  | other {w : World π α} (a : Nat) (b : UInt8) (apart : a ≠ lock) :
      Step lock none w { w with mem := w.mem.write8 a b }

/-- The byte is clear and nobody has called `mutex_lock`. -/
structure Start (lock : Nat) (w : World π α) : Prop where
  clear : w.mem lock = 0
  outside : ∀ p, w.stage p = .outside

/-! ## Mutual exclusion -/

structure Guarded (lock : Nat) (w : World π α) : Prop where
  set : w.mem lock ≠ 0 ↔ ∃ p, w.Inside p
  one : ∀ p q, w.Inside p → w.Inside q → p = q
  called : ∀ p, w.stage p = .spinning → w.todo p ≠ []

theorem testAndSet_set (lock : Nat) (m : Mem) : (testAndSet lock m).1 = true ↔ m lock ≠ 0 := by
  simp [testAndSet]

theorem testAndSet_self (lock : Nat) (m : Mem) : (testAndSet lock m).2 lock = 1 :=
  Mem.write8_self m lock 1

theorem inside_setStage {w : World π α} {p q : π} {stage : Stage α} {mem : Mem} {data : α}
    {todo : π → List (List (α → α))} :
    World.Inside ⟨mem, data, w.setStage p stage, todo⟩ q ↔
      (q = p ∧ ∃ rest, stage = .inside rest) ∨ (q ≠ p ∧ w.Inside q) := by
  by_cases here : q = p
  · subst here
    simp [World.Inside, World.setStage]
  · simp [World.Inside, World.setStage, here]

theorem spinning_setStage {w : World π α} {p q : π} {stage : Stage α}
    (spinning : w.setStage p stage q = .spinning) :
    (q = p ∧ stage = .spinning) ∨ (q ≠ p ∧ w.stage q = .spinning) := by
  by_cases here : q = p
  · subst here
    simp only [World.setStage, Function.update_self] at spinning
    exact Or.inl ⟨rfl, spinning⟩
  · simp only [World.setStage, Function.update_of_ne here] at spinning
    exact Or.inr ⟨here, spinning⟩

omit [DecidableEq π] in
theorem Start.guarded {lock : Nat} {w : World π α} (h : Start lock w) : Guarded lock w := by
  have none (p : π) : ¬ w.Inside p := by
    rintro ⟨rest, inside⟩
    rw [h.outside p] at inside
    cases inside
  constructor
  · simp [h.clear, none]
  · exact fun p _ inside => absurd inside (none p)
  · intro p spinning
    rw [h.outside p] at spinning
    cases spinning

theorem step_guarded {lock : Nat} {l : Option π} {w w' : World π α} (h : Guarded lock w)
    (step : Step lock l w w') : Guarded lock w' := by
  cases step with
  | call p fs rest outside next =>
    have here : ¬ w.Inside p := by
      rintro ⟨rest, inside⟩
      rw [outside] at inside
      cases inside
    have same (q : π) : World.Inside { w with stage := w.setStage p .spinning } q ↔ w.Inside q := by
      rw [inside_setStage]
      by_cases q = p <;> simp_all
    refine ⟨?_, ?_, ?_⟩
    · simp only [same]
      exact h.set
    · intro q r
      rw [same, same]
      exact h.one q r
    · intro q spinning
      rcases spinning_setStage spinning with ⟨rfl, _⟩ | ⟨_, before⟩
      · simp [next]
      · exact h.called q before
  | again p spinning wasSet =>
    refine ⟨?_, h.one, h.called⟩
    have before := h.set.mp ((testAndSet_set lock w.mem).mp wasSet)
    simp only [testAndSet_self]
    exact iff_of_true (by decide) before
  | enter p fs rest spinning next wasClear =>
    have nobody (q : π) : ¬ w.Inside q := by
      intro inside
      have set := (testAndSet_set lock w.mem).mpr (h.set.mpr ⟨q, inside⟩)
      rw [wasClear] at set
      cases set
    refine ⟨?_, ?_, ?_⟩
    · simp only [testAndSet_self, inside_setStage]
      exact iff_of_true (by decide) ⟨p, Or.inl ⟨rfl, fs, rfl⟩⟩
    · intro q r
      rw [inside_setStage, inside_setStage]
      rintro (⟨rfl, _⟩ | ⟨_, inside⟩) (⟨rfl, _⟩ | ⟨_, inside'⟩)
      · rfl
      · exact absurd inside' (nobody r)
      · exact absurd inside (nobody q)
      · exact absurd inside (nobody q)
    · intro q spinning'
      rcases spinning_setStage spinning' with ⟨_, stage⟩ | ⟨other, before⟩
      · cases stage
      · simpa [Function.update_of_ne other] using h.called q before
  | access p f rest inside =>
    have same (q : π) :
        World.Inside { w with data := f w.data, stage := w.setStage p (.inside rest) } q ↔
          w.Inside q := by
      rw [inside_setStage]
      by_cases here : q = p
      · subst here
        simp [World.Inside, inside]
      · simp [here]
    refine ⟨?_, ?_, ?_⟩
    · simp only [same]
      exact h.set
    · intro q r
      rw [same, same]
      exact h.one q r
    · intro q spinning
      rcases spinning_setStage spinning with ⟨_, stage⟩ | ⟨_, before⟩
      · cases stage
      · exact h.called q before
  | unlock p inside =>
    have gone (q : π) : ¬ World.Inside
        { w with mem := mutexUnlock lock w.mem, stage := w.setStage p .outside } q := by
      rw [inside_setStage]
      rintro (⟨_, rest, stage⟩ | ⟨other, still⟩)
      · cases stage
      · exact other (h.one q p still ⟨[], inside⟩)
    refine ⟨?_, ?_, ?_⟩
    · simp only [gone, exists_false, iff_false, not_not]
      exact Mem.write8_self w.mem lock 0
    · exact fun q _ still => absurd still (gone q)
    · intro q spinning
      rcases spinning_setStage spinning with ⟨_, stage⟩ | ⟨_, before⟩
      · cases stage
      · exact h.called q before
  | other a b apart =>
    refine ⟨?_, h.one, h.called⟩
    simp only [Mem.write8_other w.mem b (Ne.symm apart)]
    exact h.set

/-- **At most one party is inside**, and the byte tells whether one is. -/
theorem leads_guarded {lock : Nat} {w₀ w : World π α} (start : Start lock w₀)
    (run : Leads (Step lock) w₀ w) : Guarded lock w :=
  run.invariant (fun _ _ _ h step => step_guarded h step) start.guarded

/-! ## Whole sections -/

/-- The data after a section. -/
def apply (fs : List (α → α)) (data : α) : α := fs.foldl (fun x f => f x) data

/-- The data, and the sections each party has not begun. -/
structure Serial (π α : Type) where
  data : α
  todo : π → List (List (α → α))

/-- A party runs its next section in one step. -/
inductive Serial.Step : π → Serial π α → Serial π α → Prop where
  | run {s : Serial π α} (p : π) (fs : List (α → α)) (rest : List (List (α → α)))
      (next : s.todo p = fs :: rest) :
      Serial.Step p s ⟨apply fs s.data, Function.update s.todo p rest⟩

def World.serial (w : World π α) : Serial π α := ⟨w.data, w.todo⟩

/-- `s` has already run the section a party is inside of. -/
structure Ahead (w : World π α) (s : Serial π α) : Prop where
  todo : s.todo = w.todo
  free : (∀ p, ¬ w.Inside p) → s.data = w.data
  busy : ∀ p rest, w.stage p = .inside rest → s.data = apply rest w.data

theorem stage_setStage {w : World π α} {p q : π} {stage : Stage α} {rest : List (α → α)}
    (inside : w.setStage p stage q = .inside rest) :
    (q = p ∧ stage = .inside rest) ∨ (q ≠ p ∧ w.stage q = .inside rest) := by
  by_cases here : q = p
  · subst here
    simp only [World.setStage, Function.update_self] at inside
    exact Or.inl ⟨rfl, inside⟩
  · simp only [World.setStage, Function.update_of_ne here] at inside
    exact Or.inr ⟨here, inside⟩

/-- Only `enter` is a step of the whole sections. -/
theorem simulates (lock : Nat) :
    Simulation (Step (π := π) (α := α) lock) Serial.Step
      (fun w s => Guarded lock w ∧ Ahead w s) := by
  rintro l w w' s ⟨guarded, ahead⟩ step
  have next := step_guarded guarded step
  cases step with
  | call p fs rest outside todo =>
    refine ⟨s, .refl, next, ahead.todo, fun nobody => ahead.free fun q inside => ?_, ?_⟩
    · apply nobody q
      rw [inside_setStage]
      by_cases here : q = p
      · subst here
        obtain ⟨rest, inside⟩ := inside
        rw [outside] at inside
        cases inside
      · exact Or.inr ⟨here, inside⟩
    · intro q rest inside
      rcases stage_setStage inside with ⟨_, stage⟩ | ⟨_, before⟩
      · cases stage
      · exact ahead.busy q rest before
  | again p spinning wasSet => exact ⟨s, .refl, next, ahead.todo, ahead.free, ahead.busy⟩
  | enter p fs rest spinning todo wasClear =>
    have nobody (q : π) : ¬ w.Inside q := by
      intro inside
      have set := (testAndSet_set lock w.mem).mpr (guarded.set.mpr ⟨q, inside⟩)
      rw [wasClear] at set
      cases set
    have begun : s.todo p = fs :: rest := by rw [ahead.todo, todo]
    refine ⟨_, .single ⟨p, .run p fs rest begun⟩, next, ?_, ?_, ?_⟩
    · simp only [ahead.todo]
    · intro none
      exact absurd (inside_setStage.mpr (Or.inl ⟨rfl, fs, rfl⟩)) (none p)
    · intro q left inside
      rcases stage_setStage inside with ⟨_, stage⟩ | ⟨_, before⟩
      · cases stage
        exact congrArg (apply fs) (ahead.free nobody)
      · exact absurd ⟨left, before⟩ (nobody q)
  | access p f rest inside =>
    refine ⟨s, .refl, next, ahead.todo, ?_, ?_⟩
    · intro none
      exact absurd (inside_setStage.mpr (Or.inl ⟨rfl, rest, rfl⟩)) (none p)
    · intro q left still
      rcases stage_setStage still with ⟨_, stage⟩ | ⟨other, before⟩
      · cases stage
        exact ahead.busy p (f :: rest) inside
      · exact absurd (guarded.one q p ⟨left, before⟩ ⟨_, inside⟩) other
  | unlock p inside =>
    refine ⟨s, .refl, next, ahead.todo, fun _ => ahead.busy p [] inside, ?_⟩
    intro q left still
    rcases stage_setStage still with ⟨_, stage⟩ | ⟨other, before⟩
    · cases stage
    · exact absurd (guarded.one q p ⟨left, before⟩ ⟨_, inside⟩) other
  | other a b apart => exact ⟨s, .refl, next, ahead.todo, ahead.free, ahead.busy⟩

omit [DecidableEq π] in
theorem Start.ahead {lock : Nat} {w : World π α} (h : Start lock w) : Ahead w w.serial := by
  refine ⟨rfl, fun _ => rfl, fun p rest inside => ?_⟩
  rw [h.outside p] at inside
  cases inside

/-- **Sections do not mix**: some order of whole sections leaves the data that
an interleaving leaves, but for the accesses one party has yet to make. -/
theorem sections_serial {lock : Nat} {w₀ w : World π α} (start : Start lock w₀)
    (run : Leads (Step lock) w₀ w) : ∃ s, Leads Serial.Step w₀.serial s ∧ Ahead w s := by
  obtain ⟨s, serial, _, ahead⟩ := (simulates lock).run ⟨start.guarded, start.ahead⟩ run
  exact ⟨s, serial, ahead⟩

/-! ## All sections end -/

/-- What a party has yet to do, less than before after every step but a round
of the loop. -/
def Stage.cost : Stage α → Nat
  | .outside => 1
  | .spinning => 0
  | .inside rest => rest.length + 2

def World.cost (w : World π α) (p : π) : Nat :=
  ((w.todo p).map (·.length + 3)).sum + (w.stage p).cost

/-- A round of the loop, and what happens elsewhere, moves nobody on. -/
structure Waits (l : Option π) (w w' : World π α) : Prop where
  stage : w'.stage = w.stage
  todo : w'.todo = w.todo
  behind : ∀ p, l = some p → w.stage p = .spinning ∧ ∃ q, w.Inside q

theorem step_cost {lock : Nat} {l : Option π} {w w' : World π α} (h : Guarded lock w)
    (step : Step lock l w w') :
    (∃ p, w'.cost p < w.cost p ∧ ∀ q, q ≠ p → w'.cost q = w.cost q) ∨ Waits l w w' := by
  cases step with
  | call p fs rest outside next =>
    refine Or.inl ⟨p, ?_, fun q other => ?_⟩
    · simp [World.cost, World.setStage, outside, Stage.cost]
    · simp [World.cost, World.setStage, other]
  | again p spinning wasSet =>
    refine Or.inr ⟨rfl, rfl, ?_⟩
    rintro _ ⟨⟩
    exact ⟨spinning, h.set.mp ((testAndSet_set lock w.mem).mp wasSet)⟩
  | enter p fs rest spinning next wasClear =>
    refine Or.inl ⟨p, ?_, fun q other => ?_⟩
    · simp only [World.cost, World.setStage, Function.update_self, spinning, next, Stage.cost,
        List.map_cons, List.sum_cons]
      omega
    · simp [World.cost, World.setStage, other]
  | access p f rest inside =>
    refine Or.inl ⟨p, ?_, fun q other => ?_⟩
    · simp [World.cost, World.setStage, inside, Stage.cost]
    · simp [World.cost, World.setStage, other]
  | unlock p inside =>
    refine Or.inl ⟨p, ?_, fun q other => ?_⟩
    · simp [World.cost, World.setStage, inside, Stage.cost]
    · simp [World.cost, World.setStage, other]
  | other a b apart => exact Or.inr ⟨rfl, rfl, fun p party => nomatch party⟩

section
variable [Fintype π]

def World.total (w : World π α) : Nat := ∑ p, w.cost p

omit [DecidableEq π] in
theorem total_lt {w w' : World π α} {p : π} (less : w'.cost p < w.cost p)
    (others : ∀ q, q ≠ p → w'.cost q = w.cost q) : w'.total < w.total := by
  refine Finset.sum_lt_sum (fun q _ => ?_) ⟨p, Finset.mem_univ p, less⟩
  by_cases here : q = p
  · rw [here]
    exact Nat.le_of_lt less
  · exact Nat.le_of_eq (others q here)

omit [DecidableEq π] in
theorem Waits.total {l : Option π} {w w' : World π α} (h : Waits l w w') : w'.total = w.total := by
  simp only [World.total, World.cost, h.stage, h.todo]

/-- Each party with something left to do moves again. -/
def Fair {lock : Nat} (run : Run (Step (π := π) (α := α) lock)) : Prop :=
  ∀ p n, ¬ (run.state n).Done p → ∃ m, n ≤ m ∧ run.label m = some p

def World.Finished (w : World π α) : Prop := ∀ p, w.Done p

theorem fair_progress {lock : Nat} (run : Run (Step (π := π) (α := α) lock))
    (start : Start lock (run.state 0)) (fair : Fair run) (n : Nat)
    (unfinished : ¬ (run.state n).Finished) :
    ∃ m, n ≤ m ∧ ((run.state m).Finished ∨ (run.state m).total < (run.state n).total) := by
  by_contra stuck
  push Not at stuck
  have guarded (m : Nat) : Guarded lock (run.state m) :=
    (run.leads m.zero_le).invariant (fun _ _ _ h step => step_guarded h step) start.guarded
  -- a party that moves on would bring the total down
  have waits (m : Nat) (later : n ≤ m) (same : (run.state m).total = (run.state n).total) :
      Waits (run.label m) (run.state m) (run.state (m + 1)) := by
    rcases step_cost (guarded m) (run.step m) with ⟨p, less, others⟩ | waits
    · have down := total_lt less others
      have up := (stuck (m + 1) (Nat.le_succ_of_le later)).2
      omega
    · exact waits
  have frozen (m : Nat) (later : n ≤ m) : (run.state m).stage = (run.state n).stage ∧
      (run.state m).total = (run.state n).total := by
    induction m, later using Nat.le_induction with
    | base => exact ⟨rfl, rfl⟩
    | succ m later ih =>
      have waits := waits m later ih.2
      exact ⟨waits.stage.trans ih.1, waits.total.trans ih.2⟩
  have behind (m : Nat) (later : n ≤ m) {p : π} (moves : run.label m = some p) :
      (run.state n).stage p = .spinning ∧ ∃ q, (run.state n).Inside q := by
    have behind := (waits m later (frozen m later).2).behind p moves
    simp only [World.Inside, (frozen m later).1] at behind ⊢
    exact behind
  -- the party inside would have to be in the loop as well
  have nobody (q : π) : ¬ (run.state n).Inside q := by
    rintro ⟨rest, inside⟩
    have busy : ¬ (run.state n).Done q := by
      rintro ⟨outside, _⟩
      rw [inside] at outside
      cases outside
    obtain ⟨m, later, moves⟩ := fair q n busy
    have spinning := (behind m later moves).1
    rw [inside] at spinning
    cases spinning
  obtain ⟨p, unfinished⟩ := not_forall.mp unfinished
  obtain ⟨m, later, moves⟩ := fair p n unfinished
  obtain ⟨_, q, inside⟩ := behind m later moves
  exact nobody q inside

/-- **Every section ends** in a fair run of finitely many parties. -/
theorem fair_run_completes {lock : Nat} (run : Run (Step (π := π) (α := α) lock))
    (start : Start lock (run.state 0)) (fair : Fair run) : ∃ n, (run.state n).Finished := by
  obtain ⟨n, _, finished⟩ :=
    run.eventually World.Finished World.total (fair_progress run start fair) 0
  exact ⟨n, finished⟩

end

/-! ## Two parties -/

/-- One section each. -/
def contended : World Bool Nat where
  mem := fun _ => 0
  data := 0
  stage := fun _ => .outside
  todo := fun _ => [[(· + 1)]]

/-- The second party finds the byte set once. -/
def turn (w : World Bool Nat) : Nat → World Bool Nat
  | 0 => { w with stage := w.setStage true .spinning }
  | 1 => { w with stage := w.setStage false .spinning }
  | 2 =>
    { w with
      mem := (testAndSet 0 w.mem).2
      stage := w.setStage true (.inside [(· + 1)])
      todo := Function.update w.todo true [] }
  | 3 => { w with mem := (testAndSet 0 w.mem).2 }
  | 4 => { w with data := w.data + 1, stage := w.setStage true (.inside []) }
  | 5 => { w with mem := mutexUnlock 0 w.mem, stage := w.setStage true .outside }
  | 6 =>
    { w with
      mem := (testAndSet 0 w.mem).2
      stage := w.setStage false (.inside [(· + 1)])
      todo := Function.update w.todo false [] }
  | 7 => { w with data := w.data + 1, stage := w.setStage false (.inside []) }
  | 8 => { w with mem := mutexUnlock 0 w.mem, stage := w.setStage false .outside }
  | _ => { w with mem := w.mem.write8 1 0 }

def contendedState : Nat → World Bool Nat
  | 0 => contended
  | n + 1 => turn (contendedState n) n

def contendedRun : Run (Step (π := Bool) (α := Nat) 0) where
  state := contendedState
  label := fun n => [some true, some false, some true, some false, some true, some true,
    some false, some false, some false].getD n none
  step
    | 0 => .call true [(· + 1)] [] rfl rfl
    | 1 => .call false [(· + 1)] [] rfl rfl
    | 2 => .enter true [(· + 1)] [] rfl rfl rfl
    | 3 => .again false rfl rfl
    | 4 => .access true (· + 1) [] rfl
    | 5 => .unlock true rfl
    | 6 => .enter false [(· + 1)] [] rfl rfl rfl
    | 7 => .access false (· + 1) [] rfl
    | 8 => .unlock false rfl
    | n + 9 => .other 1 0 (by decide)

theorem contended_start : Start 0 contended := ⟨rfl, fun _ => rfl⟩

theorem contended_done (n : Nat) (p : Bool) : (contendedState (n + 9)).Done p := by
  induction n with
  | zero => cases p <;> exact ⟨rfl, rfl⟩
  | succ n ih => exact ih

theorem contended_fair : Fair contendedRun := by
  intro p n unfinished
  have early : n < 9 := by
    by_contra late
    obtain ⟨k, rfl⟩ := Nat.exists_eq_add_of_le' (Nat.le_of_not_lt late)
    exact unfinished (contended_done k p)
  cases p with
  | true =>
    by_cases before : n ≤ 5
    · exact ⟨5, before, rfl⟩
    · interval_cases n <;> exact absurd ⟨rfl, rfl⟩ unfinished
  | false => exact ⟨8, by omega, rfl⟩

theorem leads_guarded_contended : Guarded 0 (contendedRun.state 4) :=
  leads_guarded contended_start (contendedRun.leads (Nat.zero_le 4))

theorem sections_serial_contended :
    ∃ s, Leads Serial.Step contended.serial s ∧ Ahead (contendedRun.state 4) s :=
  sections_serial contended_start (contendedRun.leads (Nat.zero_le 4))

theorem fair_run_completes_contended : ∃ n, (contendedRun.state n).Finished :=
  fair_run_completes contendedRun contended_start contended_fair

end KessOS.Lock
