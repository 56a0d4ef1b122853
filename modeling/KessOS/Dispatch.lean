import KessOS.Threads

/-!
# The order of dispatch

A slot is zero before its thread is created and again after it is unlisted.
The scheduler stops at either, so it never passes over a thread: the threads
run so far are the first `ctid` ones created.

* `Ledger`: what a run keeps, call by call;
* `dispatched_in_order`: the addresses run are the first `ctid` created.
-/

namespace KessOS.Threads

/-- The address a call passes to `mkthread`. -/
def Call.address : Call → Option Nat
  | .mkthread execAddr => some execAddr
  | .unlistThread _ => none
  | .tick => none

/-- The addresses passed to `mkthread`, in order. -/
def created (calls : List Call) : List Nat := calls.filterMap Call.address

def after (calls : List Call) : Threads := calls.foldl Call.run initial

/-- The address a call jumps to, if any: `exec()` of the scheduler. -/
def Call.executes (s : Threads) : Call → List Nat
  | .mkthread _ => []
  | .unlistThread _ => []
  | .tick =>
    if s.ctid ≥ maxThreads - 1 then []
    else if s.threads s.ctid = 0 then []
    else [s.threads s.ctid]

/-- The addresses dispatched in a run, in order. -/
def executed : Threads → List Call → List Nat
  | _, [] => []
  | s, call :: calls => call.executes s ++ executed (call.run s) calls

/-- At most three threads, none of them at the null address, and `tid`s in 0..2. -/
structure Permitted (calls : List Call) : Prop where
  few : (created calls).length ≤ maxThreads
  nonzero : ∀ execAddr ∈ created calls, 0 < execAddr ∧ execAddr < 18446744073709551616
  listed : ∀ tid, .unlistThread tid ∈ calls → tid < maxThreads

theorem created_append (calls : List Call) (call : Call) :
    created (calls ++ [call]) = created calls ++ call.address.toList := by
  cases call <;> simp [created, Call.address]

theorem after_append (calls : List Call) (call : Call) :
    after (calls ++ [call]) = call.run (after calls) := by
  simp [after]

theorem executed_append (s : Threads) (calls : List Call) (call : Call) :
    executed s (calls ++ [call]) = executed s calls ++ call.executes (calls.foldl Call.run s) := by
  induction calls generalizing s with
  | nil => simp [executed]
  | cons first rest ih =>
    rw [List.cons_append, executed, ih, executed, List.foldl_cons, List.append_assoc]

theorem Permitted.init {calls : List Call} {call : Call} (h : Permitted (calls ++ [call])) :
    Permitted calls := by
  have made := created_append calls call
  constructor
  · have few := h.few
    rw [made, List.length_append] at few
    omega
  · intro execAddr listed
    apply h.nonzero
    rw [made]
    exact List.mem_append_left _ listed
  · intro tid listed
    exact h.listed tid (List.mem_append_left _ listed)

/-- What the state after `calls` has to do with them. -/
structure Ledger (calls : List Call) (s : Threads) : Prop where
  table : Table s
  count : s.nthreads = (created calls).length
  slots : ∀ i, s.threads i ≠ 0 → (created calls)[i]? = some (s.threads i)
  turn : s.ctid ≤ s.nthreads
  order : executed initial calls = (created calls).take s.ctid
  ran : s.dispatched = (List.range s.ctid).reverse

theorem mkthread_ledger {calls : List Call} {execAddr : Nat}
    (h : Ledger calls (after calls)) (permitted : Permitted (calls ++ [.mkthread execAddr])) :
    Ledger (calls ++ [.mkthread execAddr]) ((after calls).mkthread execAddr) := by
  have made : created (calls ++ [.mkthread execAddr]) = created calls ++ [execAddr] :=
    created_append calls _
  have few := permitted.few
  have count := h.count
  rw [made, List.length_append, List.length_singleton] at few
  have room : (after calls).nthreads < maxThreads := by omega
  have pos : 0 < execAddr := by
    apply (permitted.nonzero execAddr _).1
    rw [made]
    exact List.mem_append_right _ (List.mem_singleton_self _)
  have next : ((after calls).nthreads + 1) % 256 = (after calls).nthreads + 1 := by
    unfold maxThreads at room
    omega
  have table := mkthread_table h.table room pos
  simp only [mkthread, next] at table ⊢
  constructor
  · exact table
  · rw [made, List.length_append, List.length_singleton, count]
  · intro i live
    simp only [setSlot] at live ⊢
    rw [made]
    split at live
    · next here =>
      rw [if_pos here, here, count]
      exact List.getElem?_concat_length
    · next other =>
      have old := h.slots i live
      have inside : i < (created calls).length := (List.getElem?_eq_some_iff.mp old).1
      rw [if_neg other, List.getElem?_append_left inside, old]
  · have turn := h.turn
    show (after calls).ctid ≤ (after calls).nthreads + 1
    omega
  · have turn : (after calls).ctid ≤ (created calls).length := count ▸ h.turn
    rw [executed_append, h.order, made]
    show _ ++ [] = (created calls ++ [execAddr]).take (after calls).ctid
    rw [List.take_append_of_le_length turn, List.append_nil]
  · exact h.ran

/-- A call that neither creates nor runs a thread keeps the ledger, though it
may clear slots. -/
theorem Ledger.kept {calls : List Call} {call : Call} {s' : Threads}
    (h : Ledger calls (after calls)) (creates : call.address = none)
    (runs : call.executes (after calls) = []) (table : Table s')
    (count : s'.nthreads = (after calls).nthreads) (turn : s'.ctid = (after calls).ctid)
    (ran : s'.dispatched = (after calls).dispatched)
    (slots : ∀ i, s'.threads i ≠ 0 → s'.threads i = (after calls).threads i) :
    Ledger (calls ++ [call]) s' := by
  have made : created (calls ++ [call]) = created calls := by
    rw [created_append, creates]
    exact List.append_nil _
  have order : executed initial (calls ++ [call]) = executed initial calls := by
    have last := executed_append initial calls call
    rwa [← after, runs, List.append_nil] at last
  constructor
  · exact table
  · rw [made, count, h.count]
  · intro i live
    have same := slots i live
    rw [same] at live ⊢
    rw [made]
    exact h.slots i live
  · rw [turn, count]
    exact h.turn
  · rw [order, made, turn, h.order]
  · rw [ran, turn, h.ran]

theorem unlistThread_ledger {calls : List Call} (h : Ledger calls (after calls)) (tid : Nat) :
    Ledger (calls ++ [.unlistThread tid]) ((after calls).unlistThread tid) := by
  have table := unlistThread_table h.table tid
  unfold unlistThread at table ⊢
  split at table
  · next out =>
    rw [if_pos out]
    exact h.kept rfl rfl table rfl rfl rfl fun i live => rfl
  · next inside =>
    rw [if_neg inside]
    apply h.kept rfl rfl table rfl rfl rfl
    intro i live
    simp only [setSlot] at live ⊢
    split at live
    · exact absurd rfl live
    · next other => exact if_neg other

theorem tick_ledger {calls : List Call} (h : Ledger calls (after calls)) :
    Ledger (calls ++ [.tick]) (after calls).threadPitSchedule := by
  have table := threadPitSchedule_table h.table
  rcases threadPitSchedule_cases h.table with ⟨same, why⟩ | ⟨room, live, next⟩
  · have idle : Call.executes (after calls) .tick = [] := by
      cases why with
      | inl last => simp [Call.executes, maxThreads, last]
      | inr empty => simp [Call.executes, empty]
    rw [same] at table ⊢
    exact h.kept rfl idle table rfl rfl rfl fun i live => rfl
  · have made : created (calls ++ [.tick]) = created calls :=
      (created_append calls _).trans (List.append_nil _)
    have order : executed initial (calls ++ [.tick]) = executed initial calls ++
        Call.executes (after calls) .tick := executed_append initial calls _
    have runs : Call.executes (after calls) .tick = [(after calls).threads (after calls).ctid] := by
      rw [Call.executes, if_neg (by unfold maxThreads; omega), if_neg live]
    have created := ((h.table.live _).mp live).1
    rw [next] at table ⊢
    constructor
    · exact table
    · rw [made]
      exact h.count
    · rw [made]
      exact h.slots
    · exact created
    · rw [order, runs, made, List.take_add_one, h.slots _ live, h.order]
      rfl
    · show _ :: _ = _
      rw [h.ran, List.range_succ, List.reverse_append]
      rfl

theorem after_ledger {calls : List Call} (h : Permitted calls) : Ledger calls (after calls) := by
  induction calls using List.reverseRecOn with
  | nil =>
    exact ⟨reachable_table .start, rfl, fun i live => absurd rfl live, Nat.le_refl _, rfl, rfl⟩
  | append_singleton calls call ih =>
    have before := ih h.init
    rw [after_append]
    cases call with
    | mkthread execAddr => exact mkthread_ledger before h
    | unlistThread tid => exact unlistThread_ledger before tid
    | tick => exact tick_ledger before

/-- No call moves `ctid` back. -/
theorem run_ctid {s : Threads} (h : Table s) (call : Call) : s.ctid ≤ (call.run s).ctid := by
  cases call with
  | mkthread execAddr => exact Nat.le_refl _
  | unlistThread tid =>
    simp only [Call.run, unlistThread]
    split <;> exact Nat.le_refl _
  | tick =>
    simp only [Call.run]
    rcases threadPitSchedule_cases h with ⟨same, _⟩ | ⟨_, _, next⟩
    · rw [same]
    · rw [next]
      exact Nat.le_succ _

theorem after_ctid (earlier : List Call) {later : List Call} (h : Permitted (earlier ++ later)) :
    (after earlier).ctid ≤ (after (earlier ++ later)).ctid := by
  induction later using List.reverseRecOn with
  | nil => rw [List.append_nil]
  | append_singleton later call ih =>
    rw [← List.append_assoc] at h ⊢
    have before := ih h.init
    have step := run_ctid (after_ledger h.init).table call
    rw [after_append]
    omega

/-- **Threads are dispatched in the order of their creation, and at most once.** -/
theorem dispatched_in_order {calls : List Call} (h : Permitted calls) :
    executed initial calls = (created calls).take (after calls).ctid ∧
    (∀ earlier later, calls = earlier ++ later → (after earlier).ctid ≤ (after calls).ctid) ∧
    (after calls).ctid ≤ (created calls).length ∧ (after calls).dispatched.Nodup := by
  have ledger := after_ledger h
  have turn := ledger.turn
  rw [ledger.count] at turn
  constructor
  · exact ledger.order
  constructor
  · rintro earlier later rfl
    exact after_ctid earlier h
  constructor
  · exact turn
  · rw [ledger.ran, List.nodup_reverse]
    exact List.nodup_range

/-- Slot 1 is unlisted before its thread exists and slot 0 after its dispatch. -/
def busy : List Call :=
  [.unlistThread 1, .mkthread 0x1000, .tick, .tick, .unlistThread 0, .mkthread 0x2000, .tick, .tick]

theorem dispatched_in_order_busy :
    executed initial busy = (created busy).take (after busy).ctid ∧
    (∀ earlier later, busy = earlier ++ later → (after earlier).ctid ≤ (after busy).ctid) ∧
    (after busy).ctid ≤ (created busy).length ∧ (after busy).dispatched.Nodup :=
  dispatched_in_order ⟨by decide, by decide, by simp [busy, maxThreads]⟩

end KessOS.Threads
