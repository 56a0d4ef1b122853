import Mathlib.Data.Finset.Insert

/-!
# The thread table

The timer interrupt runs the thread in slot `ctid` once and moves `ctid` on. A
dispatched thread returns, so what it calls itself comes after the tick.

* `Reachable`: the states of runs of `mkthread`, `unlist_thread` and ticks;
* `reachable_table`: live slots are those filled and not unlisted, dispatched
  ones those below `ctid`;
* `reachable_turn_iff`: a waiting thread gets its turn within three ticks
  exactly when it is in one of the first two slots with no empty slot before it;
* `careful_turn`: runs in which that never fails.
-/

namespace KessOS

def maxThreads : Nat := 3

/-- The table and its counters. `unlisted` and `dispatched` record the slots
whose thread was taken out and whose thread was run; the code keeps neither. -/
structure Threads where
  threads : Nat → Nat
  ctid : Nat
  nthreads : Nat
  unlisted : Finset Nat
  dispatched : List Nat

namespace Threads

def initial : Threads where
  threads := fun _ => 0
  ctid := 0
  nthreads := 0
  unlisted := ∅
  dispatched := []

def setSlot (s : Threads) (i v : Nat) : Nat → Nat := fun j => if j = i then v else s.threads j

def mkthread (s : Threads) (execAddr : Nat) : Threads :=
  { s with
    threads := s.setSlot s.nthreads execAddr
    nthreads := (s.nthreads + 1) % 256 }

/-- A thread is unlisted when its slot was filled before. -/
def unlistThread (s : Threads) (tid : Nat) : Threads :=
  if tid > maxThreads - 1 then s
  else
    { s with
      threads := s.setSlot tid 0
      unlisted := if tid < s.nthreads then insert tid s.unlisted else s.unlisted }

def threadPitSchedule (s : Threads) : Threads :=
  if s.ctid ≥ maxThreads - 1 then s
  else if s.threads s.ctid = 0 then s
  else { s with ctid := (s.ctid + 1) % 256, dispatched := s.ctid :: s.dispatched }

/-! ## Runs -/

inductive Call where
  | mkthread (execAddr : Nat)
  | unlistThread (tid : Nat)
  | tick

def Call.run (s : Threads) : Call → Threads
  | .mkthread execAddr => s.mkthread execAddr
  | .unlistThread tid => s.unlistThread tid
  | .tick => s.threadPitSchedule

/-- At most three threads, none of them at the null address. -/
def Call.Allowed (s : Threads) : Call → Prop
  | .mkthread execAddr =>
    s.nthreads < maxThreads ∧ 0 < execAddr ∧ execAddr < 18446744073709551616
  | .unlistThread tid => tid < maxThreads
  | .tick => True

inductive Reachable : Threads → Prop where
  | start : Reachable initial
  | next {s : Threads} (call : Call) : Reachable s → call.Allowed s → Reachable (call.run s)

/-- Created, not unlisted and not yet dispatched. -/
def Waiting (s : Threads) (i : Nat) : Prop :=
  i < s.nthreads ∧ i ∉ s.unlisted ∧ i ∉ s.dispatched

def ticks : Nat → Threads → Threads
  | 0, s => s
  | n + 1, s => ticks n s.threadPitSchedule

/-- Three ticks run every waiting thread. -/
def Turn (s : Threads) : Prop := ∀ i, s.Waiting i → i ∈ (ticks 3 s).dispatched

/-! ## What every run keeps -/

structure Table (s : Threads) : Prop where
  few : s.nthreads ≤ maxThreads
  short : s.ctid ≤ maxThreads - 1
  live : ∀ i, s.threads i ≠ 0 ↔ i < s.nthreads ∧ i ∉ s.unlisted
  filled : ∀ i, i ∈ s.unlisted → i < s.nthreads
  ran : ∀ i, i ∈ s.dispatched ↔ i < s.ctid

theorem mkthread_table {s : Threads} (h : Table s) {execAddr : Nat} (room : s.nthreads < maxThreads)
    (pos : 0 < execAddr) : Table (s.mkthread execAddr) := by
  have count : (s.nthreads + 1) % 256 = s.nthreads + 1 := by
    unfold maxThreads at room
    omega
  simp only [mkthread, count]
  refine ⟨room, h.short, fun i => ?_, fun i hi => ?_, h.ran⟩
  · simp only [setSlot]
    split
    · next here =>
      subst here
      have fresh : s.nthreads ∉ s.unlisted := fun hi => absurd (h.filled _ hi) (Nat.lt_irrefl _)
      simp only [fresh, not_false_eq_true, and_true]
      omega
    · next other =>
      rw [h.live]
      constructor
      · rintro ⟨lt, kept⟩
        exact ⟨by omega, kept⟩
      · rintro ⟨lt, kept⟩
        exact ⟨by omega, kept⟩
  · have := h.filled i hi
    dsimp only
    omega

theorem unlistThread_table {s : Threads} (h : Table s) (tid : Nat) :
    Table (s.unlistThread tid) := by
  unfold unlistThread
  split
  · exact h
  · refine ⟨h.few, h.short, fun i => ?_, fun i hi => ?_, h.ran⟩
    · have old := h.live i
      simp only [setSlot]
      by_cases here : i = tid
      · subst here
        by_cases created : i < s.nthreads <;> simp [created]
      · by_cases created : tid < s.nthreads <;> simp [here, created, old]
    · dsimp only at hi ⊢
      split at hi
      · rcases Finset.mem_insert.mp hi with rfl | hi
        · assumption
        · exact h.filled i hi
      · exact h.filled i hi

/-- Everything a tick can do. -/
theorem threadPitSchedule_cases {s : Threads} (h : Table s) :
    (s.threadPitSchedule = s ∧ (s.ctid = 2 ∨ s.threads s.ctid = 0)) ∨
    (s.ctid < 2 ∧ s.threads s.ctid ≠ 0 ∧
      s.threadPitSchedule =
        { s with ctid := s.ctid + 1, dispatched := s.ctid :: s.dispatched }) := by
  have short := h.short
  unfold threadPitSchedule maxThreads at *
  split
  · exact Or.inl ⟨rfl, Or.inl (by omega)⟩
  · split
    · next empty => exact Or.inl ⟨rfl, Or.inr empty⟩
    · next live =>
      have next : (s.ctid + 1) % 256 = s.ctid + 1 := by omega
      rw [next]
      exact Or.inr ⟨by omega, live, rfl⟩

theorem threadPitSchedule_table {s : Threads} (h : Table s) : Table s.threadPitSchedule := by
  rcases threadPitSchedule_cases h with ⟨same, _⟩ | ⟨lt, _, next⟩
  · rw [same]
    exact h
  · rw [next]
    refine ⟨h.few, lt, h.live, h.filled, fun i => ?_⟩
    simp only [List.mem_cons, h.ran]
    omega

theorem reachable_table {s : Threads} (h : Reachable s) : Table s := by
  induction h with
  | start => exact ⟨by decide, by decide, by simp [initial], by simp [initial], by simp [initial]⟩
  | next call _ allowed ih =>
    cases call with
    | mkthread execAddr => exact mkthread_table ih allowed.1 allowed.2.1
    | unlistThread tid => exact unlistThread_table ih tid
    | tick => exact threadPitSchedule_table ih

theorem Table.waiting_iff {s : Threads} (h : Table s) (i : Nat) :
    s.Waiting i ↔ s.threads i ≠ 0 ∧ s.ctid ≤ i := by
  rw [Waiting, h.live, h.ran, not_lt, and_assoc]

/-! ## Ticks -/

/-- The slots dispatched after `n` ticks: the first two, up to the first empty one. -/
theorem mem_ticks {s : Threads} (h : Table s) (n i : Nat) :
    i ∈ (ticks n s).dispatched ↔ i < s.ctid ∨
      (i < 2 ∧ i < s.ctid + n ∧ ∀ j, s.ctid ≤ j → j ≤ i → s.threads j ≠ 0) := by
  induction n generalizing s with
  | zero =>
    rw [ticks, h.ran]
    omega
  | succ n ih =>
    rw [ticks, ih (threadPitSchedule_table h)]
    rcases threadPitSchedule_cases h with ⟨same, last | empty⟩ | ⟨room, live, next⟩
    · rw [same]
      omega
    · rw [same]
      by_cases before : i < s.ctid
      · simp only [before, true_or]
      · have stuck : ¬ ∀ j, s.ctid ≤ j → j ≤ i → s.threads j ≠ 0 :=
          fun all => all s.ctid (Nat.le_refl _) (by omega) empty
        simp only [stuck, and_false]
    · rw [next]
      dsimp only
      constructor
      · rintro (before | ⟨slot, near, all⟩)
        · by_cases here : i = s.ctid
          · subst here
            refine Or.inr ⟨room, by omega, fun j lo hi => ?_⟩
            rwa [show j = s.ctid by omega]
          · exact Or.inl (by omega)
        · by_cases before : i < s.ctid
          · exact Or.inl before
          · refine Or.inr ⟨slot, by omega, fun j lo hi => ?_⟩
            by_cases first : j = s.ctid
            · rwa [first]
            · exact all j (by omega) hi
      · rintro (before | ⟨slot, near, all⟩)
        · exact Or.inl (by omega)
        · by_cases here : i < s.ctid + 1
          · exact Or.inl here
          · exact Or.inr ⟨slot, by omega, fun j lo hi => all j (by omega) hi⟩

/-- The last slot of the table never runs, in any run. -/
theorem last_slot_never_runs {s : Threads} (h : Reachable s) :
    maxThreads - 1 ∉ s.dispatched := by
  have table := reachable_table h
  have short := table.short
  rw [table.ran]
  omega

/-- Every waiting thread is in one of the first two slots, and no slot between
`ctid` and its own is empty. -/
def Ready (s : Threads) : Prop :=
  ∀ i, s.Waiting i → i < 2 ∧ ∀ j, s.ctid ≤ j → j < i → s.threads j ≠ 0

theorem Table.turn_iff {s : Threads} (h : Table s) : s.Turn ↔ s.Ready := by
  refine forall_congr' fun i => imp_congr_right fun waiting => ?_
  obtain ⟨live, from_ctid⟩ := (h.waiting_iff i).mp waiting
  rw [mem_ticks h]
  constructor
  · rintro (before | ⟨slot, _, all⟩)
    · omega
    · exact ⟨slot, fun j lo hi => all j lo (by omega)⟩
  · rintro ⟨slot, all⟩
    refine Or.inr ⟨slot, by omega, fun j lo hi => ?_⟩
    by_cases own : j = i
    · rwa [own]
    · exact all j lo (by omega)

/-- **Three ticks run the waiting threads exactly when the scheduler can reach them.** -/
theorem reachable_turn_iff {s : Threads} (h : Reachable s) : s.Turn ↔ s.Ready :=
  (reachable_table h).turn_iff

/-- One thread, before its first tick. -/
theorem reachable_turn_iff_one :
    Turn (initial.mkthread 0x1000) ↔ Ready (initial.mkthread 0x1000) :=
  reachable_turn_iff (.next (.mkthread 0x1000) .start ⟨by decide, by decide, by decide⟩)

/-- A full table. -/
def three : Threads := ((initial.mkthread 0x1000).mkthread 0x2000).mkthread 0x3000

/-- The third of three threads is not run. -/
theorem three_starve : ¬ ∀ s, Reachable s → s.Turn := by
  intro all
  have first : Reachable (initial.mkthread 0x1000) :=
    .next (.mkthread 0x1000) .start ⟨by decide, by decide, by decide⟩
  have second : Reachable ((initial.mkthread 0x1000).mkthread 0x2000) :=
    .next (.mkthread 0x2000) first ⟨by decide, by decide, by decide⟩
  have third : Reachable three := .next (.mkthread 0x3000) second ⟨by decide, by decide, by decide⟩
  have turn := all three third 2 ⟨by decide, by decide, by decide⟩
  revert turn
  decide

/-! ## Runs that keep the scheduler going -/

/-- At most two threads, and none unlisted while it waits. -/
def Call.Careful (s : Threads) : Call → Prop
  | .mkthread execAddr =>
    s.nthreads < maxThreads - 1 ∧ 0 < execAddr ∧ execAddr < 18446744073709551616
  | .unlistThread tid => tid < maxThreads ∧ ¬ s.Waiting tid
  | .tick => True

inductive CarefulRun : Threads → Prop where
  | start : CarefulRun initial
  | next {s : Threads} (call : Call) : CarefulRun s → call.Careful s → CarefulRun (call.run s)

theorem Call.Careful.allowed {s : Threads} {call : Call} (h : call.Careful s) :
    call.Allowed s := by
  cases call with
  | mkthread => exact ⟨by have := h.1; omega, h.2⟩
  | unlistThread => exact h.1
  | tick => trivial

/-- No slot from `ctid` on is empty, and the last one is not used. -/
structure Packed (s : Threads) : Prop where
  few : s.nthreads ≤ maxThreads - 1
  live : ∀ i, s.ctid ≤ i → i < s.nthreads → s.threads i ≠ 0

theorem call_packed {s : Threads} (table : Table s) (h : Packed s) {call : Call}
    (careful : call.Careful s) : Packed (call.run s) := by
  cases call with
  | mkthread execAddr =>
    obtain ⟨room, pos, _⟩ := careful
    have count : (s.nthreads + 1) % 256 = s.nthreads + 1 := by
      unfold maxThreads at room
      omega
    simp only [Call.run, mkthread, count]
    refine ⟨room, fun i lo hi => ?_⟩
    simp only [setSlot]
    split
    · omega
    · exact h.live i lo (by dsimp only at hi; omega)
  | unlistThread tid =>
    simp only [Call.run, unlistThread]
    split
    · exact h
    · refine ⟨h.few, fun i lo hi => ?_⟩
      have here := h.live i lo hi
      simp only [setSlot]
      split
      · next same =>
        subst same
        exact absurd ((table.waiting_iff i).mpr ⟨here, lo⟩) careful.2
      · exact here
  | tick =>
    rcases threadPitSchedule_cases table with ⟨same, _⟩ | ⟨_, _, next⟩
    · simp only [Call.run, same]
      exact h
    · simp only [Call.run, next]
      exact ⟨h.few, fun i lo hi => h.live i (Nat.le_of_succ_le lo) hi⟩

theorem CarefulRun.reachable {s : Threads} (h : CarefulRun s) : Reachable s := by
  induction h with
  | start => exact .start
  | next call _ careful ih => exact .next call ih careful.allowed

theorem CarefulRun.packed {s : Threads} (h : CarefulRun s) : Packed s := by
  induction h with
  | start => exact ⟨by decide, fun i _ hi => absurd hi (Nat.not_lt_zero i)⟩
  | next call run careful ih => exact call_packed (reachable_table run.reachable) ih careful

/-- In such a run every thread gets its turn. -/
theorem careful_turn {s : Threads} (h : CarefulRun s) : s.Turn := by
  have table := reachable_table h.reachable
  have packed := h.packed
  apply table.turn_iff.mpr
  intro i waiting
  have few := packed.few
  unfold maxThreads at few
  have created := waiting.1
  exact ⟨by omega, fun j lo hi => packed.live j lo (by omega)⟩

end Threads

end KessOS
