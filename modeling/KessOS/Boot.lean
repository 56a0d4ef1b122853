import KessOS.Interrupts

/-!
# The boot routine and the timer

`_start` sleeps three times before it enters ring 3. Each time it waits for
ticks, which only the timer handler counts.

* `slept_ticks`: ring 3 is not entered before as many ticks as the routine
  sleeps for;
* `ring3_entered`: it is entered, and how many ticks later at most, where the
  timer, the handlers and the routine all get to move.
-/

namespace KessOS.Interrupts

open Machine (pic1Data pic1Command)
open Transition

/-- `_start` behind `init`. Calls that concern neither interrupts nor threads
are `work`. -/
def bootProgram : List Op :=
  [.code .sti,
    -- pci_enumerate_and_log
    .code .cli, .code .work, .code .sti,
    .pitSleep 200,
    .pitSleep 150,
    -- clearScreen
    .code .cli, .code .work, .code .sti,
    -- pcspkr_play
    .code .cli, .code .work, .code .sti,
    .pitSleep 25,
    -- pcspkr_shutup
    .code .work,
    -- footer_init: ps2_keyboard_init and iopl_zero
    .code .cli, .toggle (1 <<< 1), .code .work,
    .contextSwitch]

/-- The ticks a routine sleeps for before it enters ring 3. -/
def slept : List Op → Nat
  | [] => 0
  | .pitSleep n :: rest => n + slept rest
  | .contextSwitch :: _ => 0
  | _ :: rest => slept rest

/-! ## At least as many ticks -/

/-- With `total` ticks to sleep for in all. -/
structure Waited (total : Nat) (s : System) : Prop where
  ticks : s.ticks = s.counted % 18446744073709551616
  left : slept s.program ≤ total
  slack : s.counted + total < 18446744073709551616 →
    total ≤ slept s.program + s.wake.getD s.counted
  ended : s.user = true → s.program = [] ∧ s.wake = none

theorem Waited.same {total : Nat} {s t : System} (h : Waited total s)
    (counters : t.ticks = s.ticks ∧ t.counted = s.counted)
    (code : t.program = s.program ∧ t.wake = s.wake ∧ t.user = s.user) : Waited total t := by
  obtain ⟨ticks, counted⟩ := counters
  obtain ⟨program, wake, user⟩ := code
  constructor
  · rw [ticks, counted, h.ticks]
  · rw [program]
    exact h.left
  · rw [program, wake, counted]
    exact h.slack
  · rw [program, wake, user]
    exact h.ended

theorem Code.run_code (s : System) (c : Code) :
    (c.run s).program = s.program ∧ (c.run s).wake = s.wake ∧ (c.run s).user = s.user := by
  cases c <;> exact ⟨rfl, rfl, rfl⟩

theorem step_waited {total : Nat} {l : Source} {s t : System} (h : Waited total s)
    (step : Step l s t) : Waited total t := by
  cases step with
  | raise line below => exact h.same ⟨rfl, rfl⟩ ⟨rfl, rfl, rfl⟩
  | deliver line enabled asks => exact h.same ⟨rfl, rfl⟩ ⟨rfl, rfl, rfl⟩
  | timer f rest inner stage line =>
    refine ⟨?_, h.left, fun short => ?_, h.ended⟩
    · simp only [System.irq0Handler, h.ticks]
      omega
    · simp only [System.irq0Handler] at short ⊢
      have slack := h.slack (by omega)
      cases asleep : s.wake with
      | none =>
        rw [asleep] at slack
        simp only [Option.getD_none] at slack ⊢
        omega
      | some wake =>
        rw [asleep] at slack
        exact slack
  | key f rest inner stage line => exact h.same ⟨rfl, rfl⟩ ⟨rfl, rfl, rfl⟩
  | threadCode f rest inner stage c allowed =>
    obtain ⟨ticks, counted, _⟩ := Code.run_counters s c
    exact h.same ⟨ticks, counted⟩ (Code.run_code s c)
  | threadSleep f rest inner stage n => exact h.same ⟨rfl, rfl⟩ ⟨rfl, rfl, rfl⟩
  | threadWake f rest inner wake stage late => exact h.same ⟨rfl, rfl⟩ ⟨rfl, rfl, rfl⟩
  | threadReturn f rest inner stage => exact h.same ⟨rfl, rfl⟩ ⟨rfl, rfl, rfl⟩
  | sendEOI f rest inner stage => exact h.same ⟨rfl, rfl⟩ ⟨rfl, rfl, rfl⟩
  | iretq f rest inner stage => exact h.same ⟨rfl, rfl⟩ ⟨rfl, rfl, rfl⟩
  | op op rest outside ring0 awake next allowed =>
    have left := h.left
    have slack := h.slack
    rw [next] at left slack
    rw [awake] at slack
    have kernel : ∀ {p : Prop}, s.user = true → p := fun ring3 =>
      absurd (ring3.symm.trans ring0) (by decide)
    cases op with
    | code c =>
      obtain ⟨ticks, counted, _⟩ := Code.run_counters { s with program := rest } c
      have before : Waited total { s with program := rest } :=
        ⟨h.ticks, left, by simp only [awake]; exact slack, kernel⟩
      exact before.same ⟨ticks, counted⟩ (Code.run_code { s with program := rest } c)
    | pitSleep n =>
      simp only [slept] at left slack
      refine ⟨h.ticks, ?_, fun short => ?_, kernel⟩
      · show slept rest ≤ total
        omega
      · simp only [Op.run, eticks, h.ticks, Option.getD_some] at short ⊢
        simp only [Option.getD_none] at slack
        have before := slack short
        omega
    | toggle bits =>
      refine ⟨h.ticks, left, ?_, kernel⟩
      simp only [Op.run, awake]
      exact slack
    | contextSwitch =>
      refine ⟨h.ticks, left, ?_, fun _ => ⟨rfl, awake⟩⟩
      simp only [Op.run, awake]
      exact slack
  | asleep outside wake sleeps early => exact h
  | awake outside wake sleeps late =>
    refine ⟨h.ticks, h.left, fun short => ?_, fun ring3 => ⟨(h.ended ring3).1, rfl⟩⟩
    have slack := h.slack short
    have ticks := h.ticks
    rw [sleeps] at slack
    simp only [Option.getD_some] at slack
    simp only [Option.getD_none]
    omega
  | user ring3 port data => exact h.same ⟨rfl, rfl⟩ ⟨rfl, rfl, rfl⟩

theorem reachable_waited {program : List Op} {s : System} (h : Reachable program s) :
    Waited (slept program) s :=
  Leads.invariant (P := Waited (slept program)) (fun _ _ _ kept step => step_waited kept step) h
    ⟨rfl, Nat.le_refl _, fun _ => Nat.le_refl _, fun ring3 => nomatch ring3⟩

theorem Waited.enough {total : Nat} {s : System} (h : Waited total s) (ring3 : s.user = true)
    (short : s.counted + total < 18446744073709551616) : total ≤ s.counted := by
  obtain ⟨ended, awake⟩ := h.ended ring3
  have slack := h.slack short
  rw [ended, awake] at slack
  simpa [slept] using slack

/-- **`pit_sleep` does not return early**, for any boot routine and in any order
of steps, until the 64-bit count of the ticks wraps. -/
theorem slept_ticks {program : List Op} {s : System} (h : Reachable program s)
    (ring3 : s.user = true) (short : s.counted + slept program < 18446744073709551616) :
    slept program ≤ s.counted :=
  (reachable_waited h).enough ring3 short

/-! ## Routines that only sleep -/

/-- A routine that makes no threads, sleeps with interrupts on, keeps the timer
line open and ends in ring 3; `flag` is the interrupt flag before it. -/
def Plain : Bool → List Op → Prop
  | _, [] => False
  | _, .code .cli :: rest => Plain false rest
  | _, .code .sti :: rest => Plain true rest
  | flag, .code .work :: rest => Plain flag rest
  | _, .code (.mkthread _) :: _ => False
  | _, .code (.unlistThread _) :: _ => False
  | flag, .pitSleep _ :: rest => flag = true ∧ Plain flag rest
  | flag, .toggle bits :: rest => bits = 2 ∧ Plain flag rest
  | _, .contextSwitch :: _ => True

theorem bootProgram_plain : Plain false bootProgram ∧ slept bootProgram = 375 := by
  simp [bootProgram, Plain, slept]

/-- The flag the routine runs with, which an interrupt handler will restore. -/
def System.flag (s : System) : Bool := !s.frames.isEmpty || s.enabled

/-- What holds along such a routine. One handler at most is under way. -/
structure Live (s : System) : Prop where
  inv : Invariant s
  kernel : s.user = false
  threads : s.threads = Threads.initial
  single : ∀ f rest, s.frames = f :: rest →
    rest = [] ∧ f.ran = false ∧ ∀ wake, f.stage ≠ .thread wake
  plain : Plain s.flag s.program
  sleeps : s.wake ≠ none → s.flag = true
  timer : ¬ s.pics.master.Masked 0
  ticks : s.ticks = s.counted % 18446744073709551616

theorem Live.disabled {s : System} (h : Live s) {f : Frame} {rest : List Frame}
    (inner : s.frames = f :: rest) : s.enabled = false := by
  cases on : s.enabled with
  | false => rfl
  | true =>
    have stack := (h.inv.kernel h.kernel).stack
    rw [inner] at stack
    have ran := (stack.inner f (by simp) (Or.inl on)).2
    rw [(h.single f rest inner).2.1] at ran
    cases ran

/-- A handler goes on, and nothing of the routine changes. -/
theorem Live.move {s t : System} (h : Live s) (inv : Invariant t) {f g : Frame} {rest : List Frame}
    (inner : s.frames = f :: rest) (inner' : t.frames = g :: rest)
    (plain : g.ran = false ∧ ∀ wake, g.stage ≠ .thread wake)
    (code : t.user = s.user ∧ t.threads = s.threads ∧ t.program = s.program ∧ t.wake = s.wake)
    (imr : t.pics.master.imr = s.pics.master.imr)
    (ticks : t.ticks = t.counted % 18446744073709551616) : Live t := by
  obtain ⟨user, threads, program, wake⟩ := code
  have flag : t.flag = s.flag := by simp [System.flag, inner, inner']
  constructor
  · exact inv
  · rw [user, h.kernel]
  · rw [threads, h.threads]
  · intro f' rest' head
    rw [inner'] at head
    cases head
    exact ⟨(h.single f rest inner).1, plain⟩
  · rw [flag, program]
    exact h.plain
  · rw [flag, wake]
    exact h.sleeps
  · rw [Chip.Masked, imr]
    exact h.timer
  · exact ticks

theorem Pics.sendEOI_imr (p : Pics) (line : Nat) :
    (Pics.sendEOI p line).master.imr = p.master.imr := by
  unfold Pics.sendEOI
  split <;> simp [Pics.write, pic1Command, pic1Data, Machine.pic2Command, Chip.command,
    Chip.endOfInterrupt]

/-- The routine's own statements. -/
theorem op_live {s : System} (h : Live s) {op : Op} {rest : List Op} (outside : s.frames = [])
    (awake : s.wake = none) (next : s.program = op :: rest)
    (inv : Invariant (op.run { s with program := rest })) :
    Live (op.run { s with program := rest }) ∨ op = .contextSwitch := by
  have flag : s.flag = s.enabled := by simp [System.flag, outside]
  have plain := h.plain
  rw [flag, next] at plain
  have none {p : Prop} {f : Frame} {more : List Frame} (inner : s.frames = f :: more) : p := by
    rw [outside] at inner
    cases inner
  cases op with
  | code c =>
    cases c with
    | cli =>
      refine Or.inl ⟨inv, h.kernel, h.threads, fun _ _ => none, ?_, fun asleep => ?_, h.timer,
        h.ticks⟩
      · simpa [System.flag, Op.run, Code.run, outside, Plain] using plain
      · exact absurd awake asleep
    | sti =>
      refine Or.inl ⟨inv, h.kernel, h.threads, fun _ _ => none, ?_, fun asleep => ?_, h.timer,
        h.ticks⟩
      · simpa [System.flag, Op.run, Code.run, outside, Plain] using plain
      · exact absurd awake asleep
    | work =>
      refine Or.inl ⟨inv, h.kernel, h.threads, fun _ _ => none, ?_, fun asleep => ?_, h.timer,
        h.ticks⟩
      · simpa [System.flag, Op.run, Code.run, outside, Plain] using plain
      · exact absurd awake asleep
    | mkthread execAddr => exact plain.elim
    | unlistThread tid => exact plain.elim
  | pitSleep n =>
    obtain ⟨on, plain⟩ := plain
    refine Or.inl ⟨inv, h.kernel, h.threads, fun _ _ => none, ?_, fun _ => ?_, h.timer, h.ticks⟩
    · simpa [System.flag, Op.run, outside] using plain
    · simp [System.flag, Op.run, on]
  | toggle bits =>
    obtain ⟨rfl, plain⟩ := plain
    refine Or.inl ⟨inv, h.kernel, h.threads, fun _ _ => none, ?_, fun asleep => ?_, ?_, h.ticks⟩
    · simpa [System.flag, Op.run, outside] using plain
    · exact absurd awake asleep
    · have ready := (h.inv.kernel h.kernel).ready
      have timer := h.timer
      simp only [Op.run, Pics.write, pic1Data, pic1Command, Chip.data, ready, Chip.Masked,
        Nat.reduceEqDiff, ↓reduceIte] at timer ⊢
      rw [show (256 : Nat) = 2 ^ 8 from rfl, Nat.testBit_mod_two_pow, Nat.testBit_xor]
      simpa using timer
  | contextSwitch => exact Or.inr rfl

theorem step_live {l : Source} {s t : System} (h : Live s) (step : Step l s t)
    (kernel : t.user = false) : Live t := by
  have inv := step_invariant h.inv step
  cases step with
  | raise line below =>
    exact ⟨inv, h.kernel, h.threads, h.single, h.plain, h.sleeps, h.timer, h.ticks⟩
  | deliver line enabled asks =>
    have outside : s.frames = [] := by
      cases frames : s.frames with
      | nil => rfl
      | cons f rest => exact absurd enabled (by simp [h.disabled frames])
    have flag : (s.deliver line).flag = s.flag := by simp [System.flag, System.deliver, enabled]
    refine ⟨inv, h.kernel, h.threads, fun f rest head => ?_, ?_, ?_, h.timer, h.ticks⟩
    · simp only [System.deliver, outside] at head
      cases head
      simp
    · rw [flag]
      exact h.plain
    · rw [flag]
      exact h.sleeps
  | timer f rest inner stage line =>
    have idle : Threads.Call.executes s.threads .tick = [] := by
      rw [h.threads]
      rfl
    have stay : s.threads.threadPitSchedule = s.threads := by
      rw [h.threads]
      rfl
    refine h.move inv inner (g := { f with stage := .served }) ?_
      ⟨(h.single f rest inner).2.1, by simp⟩ ⟨rfl, stay, rfl, rfl⟩ rfl ?_
    · simp only [System.irq0Handler, idle, ↓reduceIte]
    · simp only [System.irq0Handler, h.ticks]
      omega
  | key f rest inner stage line =>
    exact h.move inv inner rfl ⟨(h.single f rest inner).2.1, by simp⟩ ⟨rfl, rfl, rfl, rfl⟩ rfl
      h.ticks
  | threadCode f rest inner stage c allowed =>
    exact absurd stage ((h.single f rest inner).2.2 none)
  | threadSleep f rest inner stage n => exact absurd stage ((h.single f rest inner).2.2 none)
  | threadWake f rest inner wake stage late =>
    exact absurd stage ((h.single f rest inner).2.2 (some wake))
  | threadReturn f rest inner stage => exact absurd stage ((h.single f rest inner).2.2 none)
  | sendEOI f rest inner stage =>
    exact h.move inv inner rfl ⟨(h.single f rest inner).2.1, by simp⟩ ⟨rfl, rfl, rfl, rfl⟩
      (Pics.sendEOI_imr s.pics f.line) h.ticks
  | iretq f rest inner stage =>
    have stack := (h.inv.kernel h.kernel).stack
    rw [inner] at stack
    have saved := (stack.known f (by simp)).2
    have flag : System.flag { s with frames := rest, enabled := f.saved } = s.flag := by
      simp [System.flag, saved, inner]
    refine ⟨inv, h.kernel, h.threads, fun g more head => ?_, ?_, ?_, h.timer, h.ticks⟩
    · simp only [(h.single f rest inner).1] at head
      cases head
    · rw [flag]
      exact h.plain
    · rw [flag]
      exact h.sleeps
  | op op rest outside ring0 awake next allowed =>
    rcases op_live h outside awake next inv with live | rfl
    · exact live
    · cases kernel
  | asleep outside wake sleeps early => exact h
  | awake outside wake sleeps late =>
    exact ⟨inv, h.kernel, h.threads, h.single, h.plain, fun asleep => absurd rfl asleep, h.timer,
      h.ticks⟩
  | user ring3 port data => exact absurd (ring3.symm.trans h.kernel) (by decide)

/-! ## Fair runs -/

/-- The timer goes on; a timer interrupt that stays possible is taken; and a handler
goes on. `main` is a pace besides: the routine makes a statement before a second
tick is counted, so a statement of it takes less than a period of the timer. -/
structure Fair (run : Run Step) : Prop where
  timer : ∀ n, ∃ m, n ≤ m ∧ run.label m = .device 0
  taken : ∀ n, (∀ m, n ≤ m → (run.state m).enabled = true ∧ (run.state m).pics.master.Asks 0) →
    ∃ m, n ≤ m ∧ run.label m = .deliver
  handler : ∀ n, (run.state n).frames ≠ [] → ∃ m, n ≤ m ∧ run.label m = .handler
  main : ∀ n, (run.state n).frames = [] → (run.state n).user = false →
    ∃ m, n ≤ m ∧ run.label m = .main ∧ (run.state m).counted ≤ (run.state n).counted + 1

/-- The routine stands at `program` and sleeps until `wake`, after `counted` ticks. -/
structure At (program : List Op) (wake : Option Nat) (counted : Nat) (s : System) : Prop where
  live : Live s
  program : s.program = program
  wake : s.wake = wake
  counted : s.counted = counted

theorem step_counted {l : Source} {s t : System} (step : Step l s t) : s.counted ≤ t.counted := by
  cases step with
  | timer f rest inner stage line => exact Nat.le_succ _
  | threadCode f rest inner stage c allowed => exact Nat.le_of_eq (Code.run_counters s c).2.1.symm
  | op op rest outside ring0 awake next allowed =>
    cases op with
    | code c => exact Nat.le_of_eq (Code.run_counters { s with program := rest } c).2.1.symm
    | _ => exact Nat.le_refl _
  | _ => exact Nat.le_refl _

section
variable {p : List Op} {w : Option Nat} {c : Nat}

/-- Only the handler itself moves while one is under way. -/
theorem step_waits {l : Source} {s t : System} {f : Frame} (h : At p w c s) (inner : s.frames = [f])
    (step : Step l s t) (other : l ≠ .handler) : At p w c t ∧ t.frames = [f] := by
  cases step with
  | raise line below =>
    have live := step_live h.live (.raise line below) h.live.kernel
    exact ⟨⟨live, h.program, h.wake, h.counted⟩, inner⟩
  | deliver line enabled asks => exact absurd enabled (by simp [h.live.disabled inner])
  | op op rest outside ring0 awake next allowed =>
    rw [inner] at outside
    cases outside
  | asleep outside wake sleeps early => exact ⟨h, inner⟩
  | awake outside wake sleeps late =>
    rw [inner] at outside
    cases outside
  | user ring3 port data => exact absurd (ring3.symm.trans h.live.kernel) (by decide)
  | timer | key | threadCode | threadSleep | threadWake | threadReturn | sendEOI | iretq =>
    exact absurd rfl other

/-- The three steps of a handler that runs no thread. -/
theorem step_handles {s t : System} {f : Frame} (h : At p w c s) (inner : s.frames = [f])
    (step : Step .handler s t) :
    (f.stage = .entered ∧ (∃ g, t.frames = [g] ∧ g.stage = .served) ∧
      At p w (if f.line = 0 then c + 1 else c) t) ∨
    (f.stage = .served ∧ (∃ g, t.frames = [g] ∧ g.stage = .ended) ∧ At p w c t) ∨
    (f.stage = .ended ∧ t.frames = [] ∧ At p w c t) := by
  have only {g : Frame} {rest : List Frame} (inner' : s.frames = g :: rest) :
      g = f ∧ rest = [] := by
    rw [inner] at inner'
    cases inner'
    exact ⟨rfl, rfl⟩
  have silent := (h.live.single f [] inner).2.2
  cases step with
  | timer g rest inner' stage line =>
    obtain ⟨rfl, rfl⟩ := only inner'
    have idle : Threads.Call.executes s.threads .tick = [] := by
      rw [h.live.threads]
      rfl
    refine Or.inl ⟨stage, ⟨{ g with stage := .served }, ?_, rfl⟩, ?_⟩
    · simp only [System.irq0Handler, idle, ↓reduceIte]
    · rw [if_pos line]
      exact ⟨step_live h.live (.timer g [] inner' stage line) h.live.kernel, h.program, h.wake,
        congrArg (· + 1) h.counted⟩
  | key g rest inner' stage line =>
    obtain ⟨rfl, rfl⟩ := only inner'
    refine Or.inl ⟨stage, ⟨{ g with stage := .served }, rfl, rfl⟩, ?_⟩
    rw [if_neg (by omega)]
    exact ⟨step_live h.live (.key g [] inner' stage line) h.live.kernel, h.program, h.wake,
      h.counted⟩
  | threadCode g rest inner' stage c allowed =>
    obtain ⟨rfl, rfl⟩ := only inner'
    exact absurd stage (silent none)
  | threadSleep g rest inner' stage n =>
    obtain ⟨rfl, rfl⟩ := only inner'
    exact absurd stage (silent none)
  | threadWake g rest inner' wake stage late =>
    obtain ⟨rfl, rfl⟩ := only inner'
    exact absurd stage (silent (some wake))
  | threadReturn g rest inner' stage =>
    obtain ⟨rfl, rfl⟩ := only inner'
    exact absurd stage (silent none)
  | sendEOI g rest inner' stage =>
    obtain ⟨rfl, rfl⟩ := only inner'
    exact Or.inr (Or.inl ⟨stage, ⟨{ g with stage := .ended }, rfl, rfl⟩,
      step_live h.live (.sendEOI g [] inner' stage) h.live.kernel, h.program, h.wake, h.counted⟩)
  | iretq g rest inner' stage =>
    obtain ⟨rfl, rfl⟩ := only inner'
    exact Or.inr (Or.inr ⟨stage, rfl,
      step_live h.live (.iretq g [] inner' stage) h.live.kernel, h.program, h.wake, h.counted⟩)

end

section
variable {run : Run Step} {p : List Op} {w : Option Nat} {c : Nat}

/-- The handler under way makes its next step. -/
theorem Fair.handles (fair : Fair run) {n : Nat} {f : Frame} (h : At p w c (run.state n))
    (inner : (run.state n).frames = [f]) :
    ∃ m, n ≤ m ∧ At p w c (run.state m) ∧ (run.state m).frames = [f] ∧ run.label m = .handler := by
  obtain ⟨m, later, moves⟩ := fair.handler n (by simp [inner])
  obtain ⟨k, after, _, ⟨here, inner⟩, moves⟩ := run.awaits
    (P := fun s => At p w c s ∧ s.frames = [f])
    (fun l s t other here step => step_waits here.1 here.2 step other) ⟨h, inner⟩ later moves
  exact ⟨k, after, here, inner, moves⟩

/-- Where a handler stands behind its first statement it returns. -/
theorem Fair.returns (fair : Fair run) {n : Nat} {f : Frame} (h : At p w c (run.state n))
    (inner : (run.state n).frames = [f]) (stage : f.stage ≠ .entered) :
    ∃ m, n ≤ m ∧ At p w c (run.state m) ∧ (run.state m).frames = [] := by
  obtain ⟨m, later, here, inner', moves⟩ := fair.handles h inner
  have step := run.step m
  rw [moves] at step
  rcases step_handles here inner' step with
    ⟨entered, _⟩ | ⟨_, ⟨g, next, ended⟩, after⟩ | ⟨_, gone, after⟩
  · exact absurd entered stage
  · obtain ⟨m', later', here', inner'', moves'⟩ := fair.handles after next
    have step' := run.step m'
    rw [moves'] at step'
    rcases step_handles here' inner'' step' with ⟨entered, _⟩ | ⟨served, _⟩ | ⟨_, gone, done⟩
    · exact absurd (ended.symm.trans entered) (by simp)
    · exact absurd (ended.symm.trans served) (by simp)
    · exact ⟨m' + 1, by omega, done, gone⟩
  · exact ⟨m + 1, by omega, after, gone⟩

/-- Any handler under way returns, having counted one tick at most. -/
theorem Fair.outside (fair : Fair run) {n : Nat} (h : At p w c (run.state n)) :
    ∃ m c', n ≤ m ∧ c' ≤ c + 1 ∧ At p w c' (run.state m) ∧ (run.state m).frames = [] := by
  cases frames : (run.state n).frames with
  | nil => exact ⟨n, c, Nat.le_refl n, by omega, h, frames⟩
  | cons f rest =>
    obtain rfl := (h.live.single f rest frames).1
    by_cases stage : f.stage = .entered
    · obtain ⟨m, later, here, inner, moves⟩ := fair.handles h frames
      have step := run.step m
      rw [moves] at step
      rcases step_handles here inner step with
        ⟨_, ⟨g, next, served⟩, after⟩ | ⟨served, _⟩ | ⟨ended, _⟩
      · obtain ⟨m', later', done, gone⟩ := fair.returns after next (by simp [served])
        exact ⟨m', _, by omega, by split <;> omega, done, gone⟩
      · exact absurd (stage.symm.trans served) (by simp)
      · exact absurd (stage.symm.trans ended) (by simp)
    · obtain ⟨m, later, done, gone⟩ := fair.returns h frames stage
      exact ⟨m, c, later, by omega, done, gone⟩

end

/-! ### A tick comes -/

section
variable {run : Run Step} {p : List Op} {w c : Nat}

theorem step_sleeps {l : Source} {s t : System} (h : At p (some w) c s) (early : c < w)
    (step : Step l s t) : At p (some w) c t ∨ At p (some w) (c + 1) t := by
  have live (kernel : t.user = false) : Live t := step_live h.live step kernel
  have kernel := h.live.kernel
  cases step with
  | timer f rest inner stage line =>
    exact Or.inr ⟨live kernel, h.program, h.wake, congrArg (· + 1) h.counted⟩
  | threadCode f rest inner stage c allowed =>
    exact absurd stage ((h.live.single f rest inner).2.2 none)
  | op op rest outside ring0 awake next allowed =>
    rw [h.wake] at awake
    cases awake
  | awake outside wake sleeps late =>
    rw [h.wake] at sleeps
    cases sleeps
    rw [h.live.ticks, h.counted] at late
    omega
  | user ring3 port data => exact absurd (ring3.symm.trans kernel) (by decide)
  | raise line below => exact Or.inl ⟨live kernel, h.program, h.wake, h.counted⟩
  | deliver line enabled asks => exact Or.inl ⟨live kernel, h.program, h.wake, h.counted⟩
  | asleep outside wake sleeps late => exact Or.inl h
  | key f rest inner stage line => exact Or.inl ⟨live kernel, h.program, h.wake, h.counted⟩
  | threadSleep f rest inner stage n =>
    exact Or.inl ⟨live kernel, h.program, h.wake, h.counted⟩
  | threadWake f rest inner wake stage late =>
    exact Or.inl ⟨live kernel, h.program, h.wake, h.counted⟩
  | threadReturn f rest inner stage => exact Or.inl ⟨live kernel, h.program, h.wake, h.counted⟩
  | sendEOI f rest inner stage => exact Or.inl ⟨live kernel, h.program, h.wake, h.counted⟩
  | iretq f rest inner stage => exact Or.inl ⟨live kernel, h.program, h.wake, h.counted⟩

/-- A request of the timer waits until it is taken, which is all that may be
taken then. -/
theorem step_requests {l : Source} {s t : System} (h : At p (some w) c s)
    (pending : 0 ∈ s.pics.master.requests) (step : Step l s t) :
    0 ∈ t.pics.master.requests ∧ (s.frames = [] → t.frames = []) ∨
      ∃ f, t.frames = [f] ∧ f.stage = .entered ∧ f.line = 0 := by
  have inside {q : Prop} {f : Frame} {rest : List Frame} (inner : s.frames = f :: rest)
      (outside : s.frames = []) : q := by
    rw [inner] at outside
    cases outside
  cases step with
  | raise line below => exact Or.inl ⟨Finset.mem_insert_of_mem pending, id⟩
  | deliver line enabled asks =>
    have outside : s.frames = [] := by
      cases frames : s.frames with
      | nil => rfl
      | cons f rest => exact absurd enabled (by simp [h.live.disabled frames])
    obtain rfl : line = 0 := Nat.le_zero.mp (asks.first 0 pending h.live.timer)
    exact Or.inr ⟨⟨0, .entered, false, s.enabled⟩, by simp [System.deliver, outside], rfl, rfl⟩
  | timer f rest inner stage line => exact Or.inl ⟨pending, inside inner⟩
  | key f rest inner stage line => exact Or.inl ⟨pending, inside inner⟩
  | threadCode f rest inner stage c allowed =>
    exact absurd stage ((h.live.single f rest inner).2.2 none)
  | threadSleep f rest inner stage n => exact Or.inl ⟨pending, inside inner⟩
  | threadWake f rest inner wake stage late => exact Or.inl ⟨pending, inside inner⟩
  | threadReturn f rest inner stage => exact Or.inl ⟨pending, inside inner⟩
  | sendEOI f rest inner stage =>
    refine Or.inl ⟨?_, inside inner⟩
    simpa only [Pics.sendEOI_requests] using pending
  | iretq f rest inner stage => exact Or.inl ⟨pending, inside inner⟩
  | op op rest outside ring0 awake next allowed =>
    rw [h.wake] at awake
    cases awake
  | asleep outside wake sleeps early => exact Or.inl ⟨pending, id⟩
  | awake outside wake sleeps late => exact Or.inl ⟨pending, id⟩
  | user ring3 port data => exact absurd (ring3.symm.trans h.live.kernel) (by decide)

/-- A sleeping routine for which the timer does not count any more, which will
turn out not to exist. -/
def Frozen (run : Run Step) (p : List Op) (w c n : Nat) : Prop :=
  ∀ m, n ≤ m → At p (some w) c (run.state m)

theorem Fair.not_entered (fair : Fair run) {n m : Nat} (stays : Frozen run p w c n) (later : n ≤ m)
    {f : Frame} (inner : (run.state m).frames = [f]) (entered : f.stage = .entered)
    (line : f.line = 0) : False := by
  obtain ⟨k, after, here, inner', moves⟩ := fair.handles (stays m later) inner
  have step := run.step k
  rw [moves] at step
  rcases step_handles here inner' step with ⟨_, _, counts⟩ | ⟨served, _⟩ | ⟨ended, _⟩
  · have same := (stays (k + 1) (by omega)).counted
    have more := counts.counted
    rw [if_pos line] at more
    omega
  · exact absurd (entered.symm.trans served) (by simp)
  · exact absurd (entered.symm.trans ended) (by simp)

/-- A pending interrupt of the timer stays so, and no other one is taken. -/
theorem Fair.pends (fair : Fair run) {n m : Nat} (stays : Frozen run p w c n) (later : n ≤ m)
    (pending : 0 ∈ (run.state m).pics.master.requests) {k : Nat} (after : m ≤ k) :
    0 ∈ (run.state k).pics.master.requests ∧
      ((run.state m).frames = [] → (run.state k).frames = []) := by
  induction after with
  | refl => exact ⟨pending, id⟩
  | @step k after ih =>
    have beyond : n ≤ k := Nat.le_trans later after
    rcases step_requests (stays k beyond) ih.1 (run.step k) with
      ⟨waits, outside⟩ | ⟨f, inner, entered, line⟩
    · exact ⟨waits, outside ∘ ih.2⟩
    · exact (fair.not_entered stays (by omega) inner entered line).elim

theorem At.asks {s : System} (h : At p (some w) c s) (pending : 0 ∈ s.pics.master.requests)
    (outside : s.frames = []) : s.enabled = true ∧ s.pics.master.Asks 0 := by
  have flag := h.live.sleeps (by simp [h.wake])
  have service := (h.live.inv.kernel h.live.kernel).service
  refine ⟨by simpa [System.flag, outside] using flag, ?_⟩
  constructor
  · exact pending
  · exact h.live.timer
  · exact fun j _ _ => Nat.zero_le j
  · simp [service, outside, inService]

/-- **The timer counts on** while the routine sleeps. -/
theorem Fair.ticks (fair : Fair run) {n : Nat} (h : At p (some w) c (run.state n))
    (early : c < w) : ∃ m, n ≤ m ∧ At p (some w) (c + 1) (run.state m) := by
  by_contra never
  have stays : Frozen run p w c n := by
    intro m later
    induction later with
    | refl => exact h
    | @step m later ih =>
      rcases step_sleeps ih early (run.step m) with same | counted
      · exact same
      · exact absurd ⟨m + 1, Nat.le_succ_of_le later, counted⟩ never
  -- an edge comes, and the handlers under way return
  obtain ⟨e, later, edge⟩ := fair.timer n
  have raised := run.step e
  rw [edge] at raised
  have pending : 0 ∈ (run.state (e + 1)).pics.master.requests := by
    generalize run.state (e + 1) = t at raised
    cases raised
    exact Finset.mem_insert_self 0 _
  obtain ⟨m, c', after, _, _, outside⟩ := fair.outside (stays (e + 1) (by omega))
  have requested := (fair.pends stays (by omega) pending after).1
  -- so that the interrupt stays possible
  have possible : ∀ k, m ≤ k → (run.state k).frames = [] ∧ (run.state k).enabled = true ∧
      (run.state k).pics.master.Asks 0 := by
    intro k beyond
    obtain ⟨waits, out⟩ := fair.pends stays (by omega) requested beyond
    exact ⟨out outside, (stays k (by omega)).asks waits (out outside)⟩
  obtain ⟨k, beyond, taken⟩ := fair.taken m fun k beyond => (possible k beyond).2
  have delivered := run.step k
  rw [taken] at delivered
  obtain ⟨out, _, asks⟩ := possible k beyond
  obtain ⟨f, inner, entered, line⟩ : ∃ f, (run.state (k + 1)).frames = [f] ∧
      f.stage = .entered ∧ f.line = 0 := by
    generalize run.state (k + 1) = t at delivered
    cases delivered with
    | deliver line enabled asks' =>
      have zero := Nat.le_zero.mp (asks'.first 0 asks.requested asks.isOpen)
      exact ⟨⟨line, .entered, false, (run.state k).enabled⟩, by simp [System.deliver, out], rfl,
        zero⟩
  exact fair.not_entered stays (by omega) inner entered line

end

/-! ### The routine goes on -/

/-- Others leave the routine where it is. -/
theorem step_other {p : List Op} {w : Option Nat} {l : Source} {s t : System} (other : l ≠ .main)
    (h : ∃ c, At p w c s) (step : Step l s t) : ∃ c, At p w c t := by
  obtain ⟨c, here⟩ := h
  have live (kernel : t.user = false) : Live t := step_live here.live step kernel
  have kernel := here.live.kernel
  cases step with
  | op | asleep | awake => exact absurd rfl other
  | threadCode f rest inner stage c allowed =>
    exact absurd stage ((here.live.single f rest inner).2.2 none)
  | user ring3 port data => exact absurd (ring3.symm.trans kernel) (by decide)
  | raise line below => exact ⟨_, live kernel, here.program, here.wake, rfl⟩
  | deliver line enabled asks => exact ⟨_, live kernel, here.program, here.wake, rfl⟩
  | timer f rest inner stage line => exact ⟨_, live kernel, here.program, here.wake, rfl⟩
  | key f rest inner stage line => exact ⟨_, live kernel, here.program, here.wake, rfl⟩
  | threadSleep f rest inner stage n => exact ⟨_, live kernel, here.program, here.wake, rfl⟩
  | threadWake f rest inner wake stage late =>
    exact ⟨_, live kernel, here.program, here.wake, rfl⟩
  | threadReturn f rest inner stage => exact ⟨_, live kernel, here.program, here.wake, rfl⟩
  | sendEOI f rest inner stage => exact ⟨_, live kernel, here.program, here.wake, rfl⟩
  | iretq f rest inner stage => exact ⟨_, live kernel, here.program, here.wake, rfl⟩

theorem run_counted {run : Run Step} {n m : Nat} (later : n ≤ m) :
    (run.state n).counted ≤ (run.state m).counted :=
  (run.leads later).monotone (f := System.counted) fun _ _ _ => step_counted

section
variable {run : Run Step} {p : List Op} {c : Nat}

/-- The routine gets to move within two ticks. -/
theorem Fair.moves {w : Option Nat} (fair : Fair run) {n : Nat} (h : At p w c (run.state n)) :
    ∃ m c', n ≤ m ∧ c' ≤ c + 2 ∧ At p w c' (run.state m) ∧ run.label m = .main := by
  obtain ⟨o, c₁, later, few, here, outside⟩ := fair.outside h
  obtain ⟨m, after, main, within⟩ := fair.main o outside here.live.kernel
  obtain ⟨k, beyond, before, ⟨c', there⟩, moves⟩ := run.awaits (P := fun s => ∃ c, At p w c s)
    (fun l s t other here step => step_other other here step) ⟨c₁, here⟩ after main
  have counted : (run.state k).counted ≤ (run.state m).counted := run_counted before
  rw [there.counted] at counted
  rw [here.counted] at within
  exact ⟨k, c', by omega, by omega, there, moves⟩

/-- The routine wakes. -/
theorem Fair.wakes {w : Nat} (fair : Fair run) (short : max c w + 2 < 18446744073709551616)
    {n : Nat} (h : At p (some w) c (run.state n)) :
    ∃ m c', n ≤ m ∧ c' ≤ max c w + 2 ∧ At p none c' (run.state m) := by
  induction left : w - c generalizing c n with
  | zero =>
    obtain ⟨m, c', later, few, here, main⟩ := fair.moves h
    have step := run.step m
    rw [main] at step
    have live := step_live here.live step
    refine ⟨m + 1, c', by omega, by omega, ?_⟩
    have ticks := here.live.ticks
    rw [here.counted] at ticks
    generalize run.state (m + 1) = t at step live
    cases step with
    | op op rest outside ring0 awake next allowed =>
      rw [here.wake] at awake
      cases awake
    | asleep outside wake sleeps early =>
      rw [here.wake] at sleeps
      cases sleeps
      have counted : (run.state n).counted ≤ (run.state m).counted := run_counted later
      rw [here.counted, h.counted] at counted
      omega
    | awake outside wake sleeps late =>
      exact ⟨live here.live.kernel, here.program, rfl, here.counted⟩
  | succ d ih =>
    obtain ⟨m, later, here⟩ := fair.ticks h (by omega)
    obtain ⟨k, c', after, few, done⟩ := ih (by omega) here (by omega)
    exact ⟨k, c', by omega, by omega, done⟩

/-- The routine makes its next statement. -/
theorem Fair.states (fair : Fair run) {op : Op} {n : Nat} (h : At (op :: p) none c (run.state n)) :
    ∃ m c', n ≤ m ∧ c' ≤ c + 2 ∧ ∃ s, At (op :: p) none c' s ∧
      run.state m = op.run { s with program := p } ∧
      (op ≠ .contextSwitch → Live (run.state m)) := by
  obtain ⟨m, c', later, few, here, main⟩ := fair.moves h
  have step := run.step m
  rw [main] at step
  have inv := step_invariant here.live.inv step
  refine ⟨m + 1, c', by omega, few, run.state m, here, ?_⟩
  generalize run.state (m + 1) = t at step inv
  cases step with
  | op op' rest outside ring0 awake next allowed =>
    have same := here.program.symm.trans next
    cases same
    exact ⟨rfl, fun stays => (op_live here.live outside awake next inv).resolve_right stays⟩
  | asleep outside wake sleeps early =>
    rw [here.wake] at sleeps
    cases sleeps
  | awake outside wake sleeps late =>
    rw [here.wake] at sleeps
    cases sleeps

theorem Fair.enters (fair : Fair run) {n : Nat} (h : At p none c (run.state n))
    (short : c + slept p + 4 * p.length < 18446744073709551616) :
    ∃ m, n ≤ m ∧ (run.state m).user = true ∧
      (run.state m).counted ≤ c + slept p + 4 * p.length := by
  induction p generalizing c n with
  | nil =>
    have plain := h.live.plain
    rw [h.program] at plain
    exact plain.elim
  | cons op rest ih =>
    obtain ⟨m, c', later, few, s, here, made, live⟩ := fair.states h
    rw [List.length_cons] at short
    cases op with
    | code k =>
      simp only [slept] at short ⊢
      have there : At rest none c' (run.state m) := by
        refine ⟨live (by simp), ?_, ?_, ?_⟩
        · rw [made]
          exact (Code.run_code { s with program := rest } k).1
        · rw [made]
          exact (Code.run_code { s with program := rest } k).2.1.trans here.wake
        · rw [made]
          exact (Code.run_counters { s with program := rest } k).2.1.trans here.counted
      obtain ⟨e, after, ring3, counted⟩ := ih there (by omega)
      exact ⟨e, by omega, ring3, by rw [List.length_cons]; omega⟩
    | pitSleep t =>
      simp only [slept] at short ⊢
      have ticks := here.live.ticks
      rw [here.counted] at ticks
      have until' : eticks s.ticks t = c' + t := by
        unfold eticks
        omega
      have there : At rest (some (c' + t)) c' (run.state m) := by
        refine ⟨live (by simp), ?_, ?_, ?_⟩
        · rw [made]
          rfl
        · rw [made, ← until']
          rfl
        · rw [made]
          exact here.counted
      obtain ⟨k, c'', after, less, awake⟩ := fair.wakes (by omega) there
      obtain ⟨e, beyond, ring3, counted⟩ := ih awake (by omega)
      exact ⟨e, by omega, ring3, by rw [List.length_cons]; omega⟩
    | toggle bits =>
      simp only [slept] at short ⊢
      have there : At rest none c' (run.state m) := by
        refine ⟨live (by simp), ?_, ?_, ?_⟩
        · rw [made]
          rfl
        · rw [made]
          exact here.wake
        · rw [made]
          exact here.counted
      obtain ⟨e, after, ring3, counted⟩ := ih there (by omega)
      exact ⟨e, by omega, ring3, by rw [List.length_cons]; omega⟩
    | contextSwitch =>
      refine ⟨m, later, ?_, ?_⟩
      · rw [made]
        rfl
      · have counted : (run.state m).counted = c' := by
          rw [made]
          exact here.counted
        rw [counted, List.length_cons]
        omega

end

theorem start_live {program : List Op} (plain : Plain false program) : Live (start program) := by
  constructor
  · exact start_invariant program
  · rfl
  · rfl
  · exact fun f rest inner => nomatch inner
  · exact plain
  · exact fun asleep => absurd rfl asleep
  · simp [start, Chip.programmed, Chip.Masked, Nat.testBit]
  · rfl

/-- **The boot routine gets to ring 3**, where the timer goes on and everybody
gets to move, with as many ticks counted as it sleeps for and at most four more
for each statement. -/
theorem ring3_entered {program : List Op} (plain : Plain false program)
    (short : 2 * slept program + 4 * program.length < 18446744073709551616) (run : Run Step)
    (starts : run.state 0 = start program) (fair : Fair run) :
    ∃ n, (run.state n).user = true ∧ slept program ≤ (run.state n).counted ∧
      (run.state n).counted ≤ slept program + 4 * program.length := by
  have boots : At program none 0 (run.state 0) := by
    rw [starts]
    exact ⟨start_live plain, rfl, rfl, rfl⟩
  obtain ⟨n, later, ring3, most⟩ := fair.enters boots (by omega)
  rw [Nat.zero_add] at most
  have reached : Reachable program (run.state n) := by
    have leads := run.leads later
    rwa [starts] at leads
  exact ⟨n, ring3, (reachable_waited reached).enough ring3 (by omega), most⟩

/-! ## A routine sleeps for a tick -/

def sleepTick : List Op := [.code .sti, .pitSleep 1, .contextSwitch]

/-- The timer goes on in ring 3. -/
def tickStates : Nat → System
  | 0 => start sleepTick
  | 1 => Op.run { tickStates 0 with program := [.pitSleep 1, .contextSwitch] } (.code .sti)
  | 2 => Op.run { tickStates 1 with program := [.contextSwitch] } (.pitSleep 1)
  | 3 => (tickStates 2).raise 0
  | 4 => (tickStates 3).deliver 0
  | 5 => (tickStates 4).irq0Handler timerFrame []
  | 6 => { (tickStates 5).setStage { timerFrame with stage := .served } [] .ended with
      pics := Pics.sendEOI (tickStates 5).pics 0 }
  | 7 => { tickStates 6 with frames := [], enabled := true }
  | 8 => { tickStates 7 with wake := none }
  | 9 => Op.run { tickStates 8 with program := [] } .contextSwitch
  | n + 10 => (tickStates (n + 9)).raise 0

def tickLabels : Nat → Source
  | 0 | 1 => .main
  | 2 => .device 0
  | 3 => .deliver
  | 4 | 5 | 6 => .handler
  | 7 | 8 => .main
  | _ + 9 => .device 0

def tickRun : Run Step where
  state := tickStates
  label := tickLabels
  step
    | 0 => .op (.code .sti) _ rfl rfl rfl rfl trivial
    | 1 => .op (.pitSleep 1) _ rfl rfl rfl rfl trivial
    | 2 => .raise 0 (by decide)
    | 3 => .deliver 0 rfl ⟨Finset.mem_insert_self 0 _, by decide, fun j _ _ => Nat.zero_le j,
        fun j taken => nomatch taken⟩
    | 4 => .timer timerFrame [] rfl rfl rfl
    | 5 => .sendEOI { timerFrame with stage := .served } [] rfl rfl
    | 6 => .iretq { timerFrame with stage := .ended } [] rfl rfl
    | 7 => .awake rfl 1 rfl (by decide)
    | 8 => .op .contextSwitch [] rfl rfl rfl rfl trivial
    | _ + 9 => .raise 0 (by decide)

theorem tickStates_late (n : Nat) : (tickStates (n + 9)).user = true ∧
    (tickStates (n + 9)).enabled = false ∧ (tickStates (n + 9)).frames = [] := by
  induction n with
  | zero => exact ⟨rfl, rfl, rfl⟩
  | succ n ih => exact ih

theorem tickRun_fair : Fair tickRun := by
  constructor
  · exact fun n => ⟨n + 9, by omega, rfl⟩
  · intro n possible
    have off := (possible (n + 9) (by omega)).1
    exact absurd off (by simp [tickRun, (tickStates_late n).2.1])
  · intro n inner
    match n with
    | 0 | 1 | 2 | 3 | 7 | 8 => exact absurd rfl inner
    | 4 | 5 | 6 => exact ⟨_, Nat.le_refl _, rfl⟩
    | n + 9 => exact absurd (tickStates_late n).2.2 inner
  · intro n outside kernel
    match n with
    | 0 | 1 | 7 | 8 => exact ⟨_, Nat.le_refl _, rfl, Nat.le_succ _⟩
    | 2 | 3 => exact ⟨7, by omega, rfl, by decide⟩
    | 4 | 5 | 6 => exact nomatch outside
    | n + 9 => exact absurd ((tickStates_late n).1.symm.trans kernel) (by decide)

theorem slept_ticks_one : slept sleepTick ≤ (tickStates 9).counted := by
  have reached : Reachable sleepTick (tickStates 9) := tickRun.leads (Nat.zero_le 9)
  exact slept_ticks reached rfl (by decide)

theorem ring3_entered_one : ∃ n, (tickStates n).user = true ∧
    slept sleepTick ≤ (tickStates n).counted ∧
      (tickStates n).counted ≤ slept sleepTick + 4 * sleepTick.length :=
  ring3_entered (by simp [sleepTick, Plain]) (by decide) tickRun rfl tickRun_fair

end KessOS.Interrupts
