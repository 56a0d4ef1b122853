import KessOS.Bytes
import KessOS.Threads

/-!
# Indices into the thread table

The table at the level of memory: an array of three words and two bytes that
count. Only `thread_pit_schedule` looks at both ends of its index.

* `inTable_shows`: while every index is in range, memory shows `Threads`;
* `inTable_iff`: the runs in which every index is.
-/

namespace KessOS

namespace ThreadTable

/-- Where the three objects lie. -/
structure Objects where
  threads : Nat
  ctid : Nat
  nthreads : Nat
  fits : threads + 24 ≤ 18446744073709551616
  ctid_apart : ctid < threads ∨ threads + 24 ≤ ctid
  nthreads_apart : nthreads < threads ∨ threads + 24 ≤ nthreads
  counters_apart : ctid ≠ nthreads

/-- The address of `threads[i]`. -/
def Objects.slot (o : Objects) (i : Int) : Nat :=
  ((o.threads + 8 * i) % 18446744073709551616).toNat

/-- What a call leaves: the indices it used on `threads`, and memory. -/
structure Outcome where
  used : List Int
  mem : Mem

section
variable (o : Objects)

def mkthread (execAddr : UInt64) (m : Mem) : Outcome :=
  let i := m o.nthreads
  { used := [i.toNat]
    mem := (m.write8 o.nthreads (i + 1)).write64 (o.slot i.toNat) execAddr.toNat }

def unlistThread (tid : Int) (m : Mem) : Outcome :=
  if tid > maxThreads - 1 then { used := [], mem := m }
  else { used := [tid], mem := m.write64 (o.slot tid) 0 }

/-- The thread itself runs after the tick. -/
def threadPitSchedule (m : Mem) : Outcome :=
  let i := m o.ctid
  if i.toNat ≥ maxThreads - 1 then { used := [], mem := m }
  else if m.read64 (o.slot i.toNat) = 0 then { used := [i.toNat], mem := m }
  else { used := [i.toNat, i.toNat], mem := m.write8 o.ctid (i + 1) }

end

/-! ## Runs -/

inductive Call where
  | mkthread (execAddr : UInt64)
  | unlistThread (tid : Int)
  | tick

namespace Call

def run (o : Objects) (m : Mem) : Call → Outcome
  | mkthread execAddr => ThreadTable.mkthread o execAddr m
  | unlistThread tid => ThreadTable.unlistThread o tid m
  | tick => threadPitSchedule o m

/-- The counter a call may change. -/
def counter (o : Objects) : Call → Option Nat
  | mkthread _ => some o.nthreads
  | unlistThread _ => none
  | tick => some o.ctid

/-- Threads the call creates. -/
def creates : Call → Nat
  | mkthread _ => 1
  | _ => 0

/-- Every index is in range, and what changes is the counter or a slot addressed. -/
structure Kept (o : Objects) (m : Mem) (call : Call) : Prop where
  inRange : ∀ i, i ∈ (call.run o m).used → 0 ≤ i ∧ i < maxThreads
  frame : ∀ x, (call.run o m).mem x ≠ m x → call.counter o = some x ∨
    ∃ i, i ∈ (call.run o m).used ∧ o.slot i ≤ x ∧ x < o.slot i + 8

/-- What the caller has to see to, with `nthreads` threads created before. -/
def Fits (nthreads : Nat) : Call → Prop
  | mkthread _ => nthreads < maxThreads
  | unlistThread tid => 0 ≤ tid
  | tick => True

end Call

def InTable (o : Objects) : Mem → List Call → Prop
  | _, [] => True
  | m, call :: calls => call.Kept o m ∧ InTable o (call.run o m).mem calls

def after (o : Objects) (m : Mem) (calls : List Call) : Mem :=
  calls.foldl (fun m call => (call.run o m).mem) m

def created (calls : List Call) : Nat := (calls.map Call.creates).sum

/-- The three objects are zero; any other byte is arbitrary. -/
structure Initial (o : Objects) (m : Mem) : Prop where
  threads : ∀ x, o.threads ≤ x → x < o.threads + 24 → m x = 0
  ctid : m o.ctid = 0
  nthreads : m o.nthreads = 0

section
variable {o : Objects} {m : Mem}

theorem Objects.slot_eq (o : Objects) {i : Nat} (h : i < maxThreads) :
    o.slot i = o.threads + 8 * i := by
  have room := o.fits
  unfold maxThreads at h
  unfold slot
  omega

/-! ## One call -/

theorem mkthread_frame {execAddr : UInt64} {x : Nat}
    (changed : (mkthread o execAddr m).mem x ≠ m x) :
    o.nthreads = x ∨
      (o.slot (m o.nthreads).toNat ≤ x ∧ x < o.slot (m o.nthreads).toNat + 8) := by
  by_contra outside
  rw [not_or] at outside
  obtain ⟨counter, slot⟩ := outside
  refine changed ?_
  have untouched := Mem.write8_other m (m o.nthreads + 1) (Ne.symm counter)
  rw [← untouched]
  exact Mem.writeLE_outside _ execAddr.toNat (by omega)

theorem unlistThread_frame {tid : Int} {x : Nat}
    (changed : (unlistThread o tid m).mem x ≠ m x) :
    tid ∈ (unlistThread o tid m).used ∧ o.slot tid ≤ x ∧ x < o.slot tid + 8 := by
  unfold unlistThread at changed ⊢
  by_cases high : tid > maxThreads - 1
  · rw [if_pos high] at changed
    exact absurd rfl changed
  · rw [if_neg high] at changed ⊢
    refine ⟨List.mem_singleton_self tid, ?_⟩
    by_contra outside
    exact changed (Mem.writeLE_outside m 0 (by omega))

theorem threadPitSchedule_frame {x : Nat} (changed : (threadPitSchedule o m).mem x ≠ m x) :
    o.ctid = x := by
  by_contra other
  refine changed ?_
  unfold threadPitSchedule
  dsimp only
  split
  · rfl
  · split
    · rfl
    · exact Mem.write8_other _ _ (by omega)

/-- A tick never leaves the table, whatever the counters hold. -/
theorem threadPitSchedule_used {i : Int} (h : i ∈ (threadPitSchedule o m).used) :
    0 ≤ i ∧ i < maxThreads - 1 := by
  unfold threadPitSchedule at h
  dsimp only at h
  split at h
  · simp at h
  · next low =>
    have bound : i = (m o.ctid).toNat := by
      split at h <;> simpa using h
    unfold maxThreads at low ⊢
    omega

theorem Call.frame (o : Objects) (m : Mem) (call : Call) {x : Nat}
    (changed : (call.run o m).mem x ≠ m x) : call.counter o = some x ∨
      ∃ i, i ∈ (call.run o m).used ∧ o.slot i ≤ x ∧ x < o.slot i + 8 := by
  cases call with
  | mkthread execAddr =>
    rcases mkthread_frame changed with counter | slot
    · exact Or.inl (congrArg some counter)
    · exact Or.inr ⟨_, List.mem_singleton_self _, slot⟩
  | unlistThread tid => exact Or.inr ⟨tid, unlistThread_frame changed⟩
  | tick => exact Or.inl (congrArg some (threadPitSchedule_frame changed))

theorem Call.inRange_iff (o : Objects) (m : Mem) (call : Call) :
    (∀ i, i ∈ (call.run o m).used → 0 ≤ i ∧ i < maxThreads) ↔
      call.Fits (m o.nthreads).toNat := by
  cases call with
  | mkthread execAddr =>
    simp only [run, ThreadTable.mkthread, List.mem_singleton, forall_eq, Fits]
    omega
  | unlistThread tid =>
    simp only [run, ThreadTable.unlistThread, Fits]
    by_cases high : tid > maxThreads - 1
    · rw [if_pos high]
      simp only [List.not_mem_nil, false_implies, implies_true, true_iff]
      unfold maxThreads at high
      omega
    · rw [if_neg high]
      simp only [List.mem_singleton, forall_eq]
      omega
  | tick =>
    refine iff_of_true (fun i used => ?_) trivial
    have := threadPitSchedule_used used
    omega

/-- **One call** stays in the table exactly when its caller saw to it. -/
theorem Call.kept_iff (o : Objects) (m : Mem) (call : Call) :
    call.Kept o m ↔ call.Fits (m o.nthreads).toNat := by
  rw [← inRange_iff]
  exact ⟨Kept.inRange, fun inRange => ⟨inRange, fun _ => call.frame o m⟩⟩

/-! ## What memory shows -/

/-- The three objects hold what the table of slots does. -/
structure Shows (o : Objects) (m : Mem) (s : Threads) : Prop where
  nthreads : (m o.nthreads).toNat = s.nthreads
  ctid : (m o.ctid).toNat = s.ctid
  slots : ∀ i : Nat, i < maxThreads → m.read64 (o.slot i) = s.threads i

/-- The same call on the table of slots. -/
def Call.abstract : Call → Threads.Call
  | mkthread execAddr => .mkthread execAddr.toNat
  | unlistThread tid => .unlistThread tid.toNat
  | tick => .tick

theorem read64_slot_write64 (o : Objects) (m : Mem) {i j : Nat} (hi : i < maxThreads)
    (hj : j < maxThreads) {v : Nat} (small : v < 18446744073709551616) :
    (m.write64 (o.slot i) v).read64 (o.slot j) = if j = i then v else m.read64 (o.slot j) := by
  rw [o.slot_eq hi, o.slot_eq hj]
  split
  · next same =>
    rw [same]
    exact Mem.read64_write64 m _ small
  · exact Mem.read64_write64_ne m v (by omega)

theorem read64_slot_write8 (o : Objects) (m : Mem) {a i : Nat} (b : UInt8) (hi : i < maxThreads)
    (apart : a < o.threads ∨ o.threads + 24 ≤ a) :
    (m.write8 a b).read64 (o.slot i) = m.read64 (o.slot i) := by
  rw [o.slot_eq hi]
  unfold maxThreads at hi
  exact Mem.readLE_blit_outside m _ (by omega)

theorem write64_slot_counter (o : Objects) (m : Mem) {a i : Nat} (v : Nat) (hi : i < maxThreads)
    (apart : a < o.threads ∨ o.threads + 24 ≤ a) : m.write64 (o.slot i) v a = m a := by
  rw [o.slot_eq hi]
  unfold maxThreads at hi
  exact Mem.writeLE_outside m v (by omega)

theorem mkthread_shows {s : Threads} (h : Shows o m s) (room : s.nthreads < maxThreads)
    (execAddr : UInt64) : Shows o (mkthread o execAddr m).mem (s.mkthread execAddr.toNat) := by
  have bound : (m o.nthreads).toNat < maxThreads := by rwa [h.nthreads]
  constructor
  · have counter := write64_slot_counter o (m.write8 o.nthreads (m o.nthreads + 1))
      execAddr.toNat bound o.nthreads_apart
    refine (congrArg UInt8.toNat counter).trans ?_
    rw [Mem.write8_self, UInt8.toNat_add, h.nthreads]
    rfl
  · have counter := write64_slot_counter o (m.write8 o.nthreads (m o.nthreads + 1))
      execAddr.toNat bound o.ctid_apart
    refine (congrArg UInt8.toNat counter).trans ?_
    rw [Mem.write8_other _ _ o.counters_apart]
    exact h.ctid
  · intro i hi
    refine (read64_slot_write64 o _ bound hi execAddr.toNat_lt).trans ?_
    rw [read64_slot_write8 o m _ hi o.nthreads_apart, h.slots i hi, h.nthreads]
    rfl

theorem unlistThread_shows {s : Threads} (h : Shows o m s) {tid : Int} (pos : 0 ≤ tid) :
    Shows o (unlistThread o tid m).mem (s.unlistThread tid.toNat) := by
  obtain ⟨i, rfl⟩ := Int.eq_ofNat_of_zero_le pos
  rw [Int.toNat_natCast]
  unfold unlistThread Threads.unlistThread
  by_cases high : i > maxThreads - 1
  · rw [if_pos high, if_pos (by unfold maxThreads at high ⊢; omega)]
    exact h
  · have bound : i < maxThreads := by
      unfold maxThreads at high ⊢
      omega
    rw [if_neg high, if_neg (by unfold maxThreads at high ⊢; omega)]
    constructor
    · exact (congrArg _ (write64_slot_counter o m 0 bound o.nthreads_apart)).trans h.nthreads
    · exact (congrArg _ (write64_slot_counter o m 0 bound o.ctid_apart)).trans h.ctid
    · intro j hj
      refine (read64_slot_write64 o m bound hj (by decide)).trans ?_
      rw [h.slots j hj]
      rfl

theorem threadPitSchedule_shows {s : Threads} (h : Shows o m s) :
    Shows o (threadPitSchedule o m).mem s.threadPitSchedule := by
  unfold threadPitSchedule Threads.threadPitSchedule
  dsimp only
  rw [h.ctid]
  by_cases last : s.ctid ≥ maxThreads - 1
  · rw [if_pos last, if_pos last]
    exact h
  · rw [if_neg last, if_neg last]
    have slot := h.slots s.ctid (by omega)
    rw [slot]
    by_cases empty : s.threads s.ctid = 0
    · rw [if_pos empty, if_pos empty]
      exact h
    · rw [if_neg empty, if_neg empty]
      constructor
      · exact (congrArg _ (Mem.write8_other m _ o.counters_apart.symm)).trans h.nthreads
      · refine (congrArg _ (Mem.write8_self m o.ctid (m o.ctid + 1))).trans ?_
        rw [UInt8.toNat_add, h.ctid]
        rfl
      · intro i hi
        rw [read64_slot_write8 o m _ hi o.ctid_apart]
        exact h.slots i hi

/-- A call that fits does to memory what it does to the table of slots. -/
theorem run_shows {s : Threads} (h : Shows o m s) {call : Call} (fits : call.Fits s.nthreads) :
    Shows o (call.run o m).mem (call.abstract.run s) := by
  cases call with
  | mkthread execAddr => exact mkthread_shows h fits execAddr
  | unlistThread tid => exact unlistThread_shows h fits
  | tick => exact threadPitSchedule_shows h

/-! ## Runs from the start -/

theorem Initial.shows (h : Initial o m) : Shows o m Threads.initial := by
  constructor
  · exact congrArg UInt8.toNat h.nthreads
  · exact congrArg UInt8.toNat h.ctid
  · intro i hi
    rw [o.slot_eq hi]
    unfold maxThreads at hi
    exact Mem.readLE_eq_zero fun j hj => h.threads _ (by omega) (by omega)

theorem run_nthreads {s : Threads} {call : Call} (fits : call.Fits s.nthreads)
    (few : s.nthreads ≤ maxThreads) :
    (call.abstract.run s).nthreads = s.nthreads + call.creates := by
  unfold maxThreads at few
  cases call with
  | mkthread execAddr =>
    unfold Call.Fits maxThreads at fits
    exact Nat.mod_eq_of_lt (by omega)
  | unlistThread tid =>
    simp only [Call.abstract, Threads.Call.run, Threads.unlistThread]
    split <;> rfl
  | tick =>
    simp only [Call.abstract, Threads.Call.run, Threads.threadPitSchedule]
    split
    · rfl
    · split <;> rfl

theorem Call.fits_iff {nthreads : Nat} (few : nthreads ≤ maxThreads) (call : Call) :
    call.Fits nthreads ↔ nthreads + call.creates ≤ maxThreads ∧
      ∀ tid, call = .unlistThread tid → 0 ≤ tid := by
  cases call with
  | mkthread execAddr =>
    constructor
    · intro room
      exact ⟨room, fun tid other => nomatch other⟩
    · intro fits
      exact fits.1
  | unlistThread tid =>
    constructor
    · intro pos
      refine ⟨few, ?_⟩
      rintro _ ⟨⟩
      exact pos
    · intro fits
      exact fits.2 tid rfl
  | tick => exact iff_of_true trivial ⟨few, fun tid other => nomatch other⟩

/-- The induction, with some threads created before. -/
theorem inTable_from {s : Threads} (h : Shows o m s) (few : s.nthreads ≤ maxThreads)
    (calls : List Call) : InTable o m calls ↔
      s.nthreads + created calls ≤ maxThreads ∧
        ∀ tid, Call.unlistThread tid ∈ calls → 0 ≤ tid := by
  induction calls generalizing m s with
  | nil =>
    refine iff_of_true trivial ⟨few, fun tid listed => ?_⟩
    exact absurd listed List.not_mem_nil
  | cons call calls ih =>
    have total : created (call :: calls) = call.creates + created calls := List.sum_cons
    rw [InTable, call.kept_iff, h.nthreads, total]
    by_cases fits : call.Fits s.nthreads
    · obtain ⟨room, own⟩ := (call.fits_iff few).mp fits
      have count := run_nthreads fits few
      rw [ih (run_shows h fits) (by rwa [count]), count, Nat.add_assoc]
      simp only [fits, true_and]
      refine and_congr_right fun _ => ⟨fun rest tid listed => ?_, fun all tid later => ?_⟩
      · rcases List.mem_cons.mp listed with here | later
        · exact own tid here.symm
        · exact rest tid later
      · exact all tid (List.mem_cons_of_mem call later)
    · refine iff_of_false (fun kept => fits kept.1) ?_
      rintro ⟨room, all⟩
      refine fits ((call.fits_iff few).mpr ⟨by omega, fun tid here => ?_⟩)
      exact all tid (here ▸ List.mem_cons_self)

/-- Memory shows the table of slots for as long as the calls stay in the table. -/
theorem inTable_shows {s : Threads} (h : Shows o m s) {calls : List Call}
    (kept : InTable o m calls) :
    Shows o (after o m calls) (calls.foldl (fun s call => call.abstract.run s) s) := by
  induction calls generalizing m s with
  | nil => exact h
  | cons call calls ih =>
    obtain ⟨first, rest⟩ := kept
    rw [call.kept_iff, h.nthreads] at first
    exact ih (run_shows h first) rest

/-- **The runs that stay in the table** are those with at most three threads
created and no negative thread id. -/
theorem inTable_iff (start : Initial o m) (calls : List Call) : InTable o m calls ↔
    created calls ≤ maxThreads ∧ ∀ tid, Call.unlistThread tid ∈ calls → 0 ≤ tid := by
  rw [inTable_from start.shows (by decide), Threads.initial, Nat.zero_add]

end

/-- The counters right behind the array. -/
def compiled : Objects where
  threads := 0x8000
  ctid := 0x8018
  nthreads := 0x8019
  fits := by decide
  ctid_apart := Or.inr (by decide)
  nthreads_apart := Or.inr (by decide)
  counters_apart := by decide

theorem zero_initial : Initial compiled fun _ => 0 := ⟨fun _ _ _ => rfl, rfl, rfl⟩

theorem inTable_iff_three :
    InTable compiled (fun _ => 0) [.mkthread 0x1000, .tick, .unlistThread 0, .mkthread 0x2000] ↔
      created [.mkthread 0x1000, .tick, .unlistThread 0, .mkthread 0x2000] ≤ maxThreads ∧
        ∀ tid, Call.unlistThread tid ∈
          [.mkthread 0x1000, .tick, .unlistThread 0, .mkthread 0x2000] → 0 ≤ tid :=
  inTable_iff zero_initial _

/-- The fourth thread is stored behind the array. -/
theorem fourth_thread_outside : ¬ ∀ (o : Objects) (m : Mem) (calls : List Call),
    Initial o m → InTable o m calls := by
  intro all
  obtain ⟨_, _, _, fourth, _⟩ := all compiled (fun _ => 0)
    [.mkthread 0x1000, .mkthread 0x2000, .mkthread 0x3000, .mkthread 0x4000] zero_initial
  have index := fourth.inRange 3 (by decide)
  exact absurd index.2 (by decide)

end ThreadTable

end KessOS
