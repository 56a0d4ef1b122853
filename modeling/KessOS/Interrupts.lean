import Mathlib.Data.List.Count
import KessOS.Dispatch
import KessOS.Pic
import KessOS.Transition

/-!
# The kernel between interrupts

Code runs until a line of the interrupt controller interrupts it. The timer
handler counts a tick and runs a thread inside of itself, before it tells the
controller that the interrupt is over. The steps below leave open when lines
are raised, when they are taken, and which of the statements in `Code` a thread
makes: it may change the flag and the table of threads, sleep and work, but it
does not write to the ports of the controllers.

* `reachable_kernel`: what holds in any order of steps;
* `handlers_nest`: each handler ends its own interrupt, and three handlers at
  most are under way;
* `ticks_counted`: every timer edge is counted once, or fell on one not taken yet;
* `sleep_returns_iff`: a thread that sleeps never wakes;
* `user_undisturbed`: no handler ever runs again once ring 3 is entered, as far as
  the steps below go (a program there does more, and `KessOS.Ring3` has all of it);
* `handles_balanced`: nested handlers of any of the sixteen lines end their own
  interrupts.
-/

namespace KessOS.Interrupts

open Machine (pic1Command pic1Data pic2Command)
open Transition

/-! ## The state -/

/-- Where a handler stands: before its first statement, in the thread it runs,
before `PIC_sendEOI`, or before `iretq`. A thread in `pit_sleep` waits for a
number of ticks. -/
inductive Stage where
  | entered
  | thread (wake : Option Nat)
  | served
  | ended
  deriving DecidableEq

/-- A handler under way. `ran` says that it ran a thread; `saved` is the
interrupt flag of the code it interrupted. -/
structure Frame where
  line : Nat
  stage : Stage
  ran : Bool
  saved : Bool

/-- Statements of the kernel and of threads. None of them writes to the ports of
the interrupt controllers. -/
inductive Code where
  | cli
  | sti
  | mkthread (execAddr : Nat)
  | unlistThread (tid : Nat)
  | work

/-- Statements of the boot routine: `toggle` reads the mask and writes it back
with some bits changed. -/
inductive Op where
  | code (c : Code)
  | pitSleep (n : Nat)
  | toggle (bits : Nat)
  | contextSwitch

/-- `frames` holds the handlers, innermost first; `program` what the interrupted
code has yet to do, and `wake` the ticks it sleeps until. The code keeps no
record of `edges` of the timer line, of those `missed` because one was pending,
and of all ticks `counted`. -/
structure System where
  pics : Pics
  enabled : Bool
  frames : List Frame
  ticks : Nat
  threads : Threads
  program : List Op
  wake : Option Nat
  user : Bool
  edges : Nat
  missed : Nat
  counted : Nat

def Pics.sendEOI (p : Pics) (irq : Nat) : Pics :=
  (if irq ≥ 8 then p.write pic2Command 0x20 else p).write pic1Command 0x20

/-- `eticks` of `pit_sleep`. -/
def eticks (ticks n : Nat) : Nat := (ticks + n) % 18446744073709551616

def Code.run (s : System) : Code → System
  | .cli => { s with enabled := false }
  | .sti => { s with enabled := true }
  | .mkthread execAddr => { s with threads := s.threads.mkthread execAddr }
  | .unlistThread tid => { s with threads := s.threads.unlistThread tid }
  | .work => s

/-- At most three threads are made. -/
def Code.Allowed (s : System) : Code → Prop
  | .mkthread execAddr => Threads.Call.Allowed s.threads (.mkthread execAddr)
  | .unlistThread tid => Threads.Call.Allowed s.threads (.unlistThread tid)
  | _ => True

def Op.run (s : System) : Op → System
  | .code c => c.run s
  | .pitSleep n => { s with wake := some (eticks s.ticks n) }
  | .toggle bits =>
    { s with pics := s.pics.write pic1Data ((s.pics.master.imr ^^^ bits) % 256) }
  -- the flags that `iretq` pops are zero
  | .contextSwitch => { s with enabled := false, user := true, program := [] }

/-- The boot routine changes the mask of lines 0 and 1. -/
def Op.Allowed (s : System) : Op → Prop
  | .code c => c.Allowed s
  | .toggle bits => bits < 4
  | _ => True

namespace System

/-- A device raises a line. -/
def raise (line : Nat) (s : System) : System :=
  { s with
    pics := { s.pics with
      master := { s.pics.master with requests := insert line s.pics.master.requests } }
    edges := if line = 0 then s.edges + 1 else s.edges
    missed := if line = 0 ∧ 0 ∈ s.pics.master.requests then s.missed + 1 else s.missed }

/-- The processor takes a line through an interrupt gate. -/
def deliver (line : Nat) (s : System) : System :=
  { s with
    pics := { s.pics with master := s.pics.master.acknowledge line }
    enabled := false
    frames := ⟨line, .entered, false, s.enabled⟩ :: s.frames }

/-- `irq0_handler` up to the thread, if one is to run. -/
def irq0Handler (f : Frame) (rest : List Frame) (s : System) : System :=
  { s with
    ticks := (s.ticks + 1) % 18446744073709551616
    counted := s.counted + 1
    threads := s.threads.threadPitSchedule
    frames :=
      (if Threads.Call.executes s.threads .tick = [] then { f with stage := .served }
        else { f with stage := .thread none, ran := true }) :: rest }

def setStage (f : Frame) (rest : List Frame) (stage : Stage) (s : System) : System :=
  { s with frames := { f with stage := stage } :: rest }

end System

/-- Who moves. -/
inductive Source where
  | device (line : Nat)
  | deliver
  | handler
  | main
  | user
  deriving DecidableEq

/-- `user` is what the controllers notice of ring 3. -/
inductive Step : Source → System → System → Prop where
  | raise {s : System} (line : Nat) (below : line < 8) : Step (.device line) s (s.raise line)
  | deliver {s : System} (line : Nat) (enabled : s.enabled = true)
      (asks : s.pics.master.Asks line) : Step .deliver s (s.deliver line)
  | timer {s : System} (f : Frame) (rest : List Frame) (inner : s.frames = f :: rest)
      (stage : f.stage = .entered) (line : f.line = 0) :
      Step .handler s (s.irq0Handler f rest)
  | key {s : System} (f : Frame) (rest : List Frame) (inner : s.frames = f :: rest)
      (stage : f.stage = .entered) (line : f.line = 1) :
      Step .handler s (s.setStage f rest .served)
  | threadCode {s : System} (f : Frame) (rest : List Frame) (inner : s.frames = f :: rest)
      (stage : f.stage = .thread none) (c : Code) (allowed : c.Allowed s) :
      Step .handler s (c.run s)
  | threadSleep {s : System} (f : Frame) (rest : List Frame) (inner : s.frames = f :: rest)
      (stage : f.stage = .thread none) (n : Nat) :
      Step .handler s (s.setStage f rest (.thread (some (eticks s.ticks n))))
  | threadWake {s : System} (f : Frame) (rest : List Frame) (inner : s.frames = f :: rest)
      (wake : Nat) (stage : f.stage = .thread (some wake)) (late : wake ≤ s.ticks) :
      Step .handler s (s.setStage f rest (.thread none))
  | threadReturn {s : System} (f : Frame) (rest : List Frame) (inner : s.frames = f :: rest)
      (stage : f.stage = .thread none) : Step .handler s (s.setStage f rest .served)
  | sendEOI {s : System} (f : Frame) (rest : List Frame) (inner : s.frames = f :: rest)
      (stage : f.stage = .served) :
      Step .handler s { s.setStage f rest .ended with pics := Pics.sendEOI s.pics f.line }
  | iretq {s : System} (f : Frame) (rest : List Frame) (inner : s.frames = f :: rest)
      (stage : f.stage = .ended) :
      Step .handler s { s with frames := rest, enabled := f.saved }
  | op {s : System} (op : Op) (rest : List Op) (outside : s.frames = [])
      (kernel : s.user = false) (awake : s.wake = none) (next : s.program = op :: rest)
      (allowed : op.Allowed s) : Step .main s (op.run { s with program := rest })
  | asleep {s : System} (outside : s.frames = []) (wake : Nat) (sleeps : s.wake = some wake)
      (early : s.ticks < wake) : Step .main s s
  | awake {s : System} (outside : s.frames = []) (wake : Nat) (sleeps : s.wake = some wake)
      (late : wake ≤ s.ticks) : Step .main s { s with wake := none }
  | user {s : System} (ring3 : s.user = true) (port data : Nat) :
      Step .user s { s with pics := s.pics.write port data }

/-- The kernel behind `init`, which ran with interrupts off, before `program`. -/
def start (program : List Op) : System where
  pics := ⟨.programmed 0x20 4 0xFE, .programmed 0x28 2 0xFF⟩
  enabled := false
  frames := []
  ticks := 0
  threads := Threads.initial
  program := program
  wake := none
  user := false
  edges := 0
  missed := 0
  counted := 0

/-! ## The stack of handlers -/

/-- What the controller has in service. -/
def inService : List Frame → Finset Nat
  | [] => ∅
  | f :: _ => if f.stage = .ended then ∅ else {f.line}

/-- The handlers, with the flag of the processor and the number of threads run:
a handler that was interrupted has run a thread and ended its interrupt. -/
structure Stack (enabled : Bool) (ctid : Nat) (frames : List Frame) : Prop where
  outer : ∀ f ∈ frames.tail, f.stage = .ended ∧ f.line = 0 ∧ f.ran = true
  known : ∀ f ∈ frames, f.line < 2 ∧ f.saved = true
  inner : ∀ f ∈ frames.head?, (enabled = true ∨ ∃ wake, f.stage = .thread wake) →
    f.line = 0 ∧ f.ran = true
  turns : frames.countP (·.ran) ≤ ctid

theorem Stack.nil (enabled : Bool) (ctid : Nat) : Stack enabled ctid [] :=
  ⟨by simp, by simp, by simp, by simp⟩

section
variable {enabled : Bool} {ctid : Nat} {f : Frame} {rest : List Frame}

/-- An interrupt comes through only when the innermost handler has ended its own. -/
theorem Stack.deliver {frames : List Frame} (h : Stack true ctid frames) {line : Nat}
    (above : ∀ j ∈ inService frames, line < j) (low : line < 2) :
    inService frames = ∅ ∧ Stack false ctid (⟨line, .entered, false, true⟩ :: frames) := by
  cases frames with
  | nil => exact ⟨rfl, by simp, by simpa using Nat.le_of_lt_succ low, by simp, by simp⟩
  | cons f rest =>
    obtain ⟨zero, ran⟩ := h.inner f (by simp) (Or.inl rfl)
    have ended : f.stage = .ended := by
      by_contra busy
      have before := above f.line (by simp [inService, busy])
      omega
    refine ⟨by simp [inService, ended], ?_, ?_, by simp, ?_⟩
    · intro g listed
      rcases List.mem_cons.mp listed with rfl | outer
      · exact ⟨ended, zero, ran⟩
      · exact h.outer g outer
    · intro g listed
      rcases List.mem_cons.mp listed with rfl | before
      · exact ⟨low, rfl⟩
      · exact h.known g before
    · simpa using h.turns

/-- The innermost handler goes on. -/
theorem Stack.move (h : Stack enabled ctid (f :: rest)) {stage : Stage}
    (runs : (∃ wake, stage = .thread wake) → f.line = 0 ∧ f.ran = true) :
    Stack enabled ctid ({ f with stage := stage } :: rest) := by
  refine ⟨h.outer, ?_, ?_, by simpa [List.countP_cons] using h.turns⟩
  · intro g listed
    rcases List.mem_cons.mp listed with rfl | before
    · exact h.known f (by simp)
    · exact h.known g (List.mem_cons_of_mem _ before)
  · intro g head
    simp only [List.head?_cons, Option.mem_some_iff] at head
    subst head
    rintro (enabled | thread)
    · exact h.inner f (by simp) (Or.inl enabled)
    · exact runs thread

/-- The timer handler runs a thread. -/
theorem Stack.run (h : Stack enabled ctid (f :: rest)) (zero : f.line = 0) :
    Stack enabled (ctid + 1) ({ f with stage := .thread none, ran := true } :: rest) := by
  refine ⟨h.outer, ?_, ?_, ?_⟩
  · intro g listed
    rcases List.mem_cons.mp listed with rfl | before
    · exact h.known f (by simp)
    · exact h.known g (List.mem_cons_of_mem _ before)
  · intro g head _
    simp only [List.head?_cons, Option.mem_some_iff] at head
    subst head
    exact ⟨zero, rfl⟩
  · have turns := h.turns
    simp only [List.countP_cons] at turns ⊢
    simp only [↓reduceIte]
    omega

/-- The thread changes the flag. -/
theorem Stack.flag (h : Stack enabled ctid (f :: rest)) (flag : Bool) {wake : Option Nat}
    (stage : f.stage = .thread wake) : Stack flag ctid (f :: rest) := by
  refine ⟨h.outer, h.known, fun g head _ => ?_, h.turns⟩
  exact h.inner g head (Or.inr ⟨wake, by
    simp only [List.head?_cons, Option.mem_some_iff] at head
    rw [← head, stage]⟩)

/-- `iretq` returns to a handler that ended its interrupt, or to the program. -/
theorem Stack.pop (h : Stack enabled ctid (f :: rest)) :
    inService rest = ∅ ∧ Stack f.saved ctid rest := by
  have turns := h.turns
  rw [List.countP_cons] at turns
  constructor
  · cases rest with
    | nil => rfl
    | cons g rest =>
      have ended := (h.outer g (by simp)).1
      simp [inService, ended]
  · refine ⟨fun g outer => h.outer g (List.mem_of_mem_tail outer), ?_, ?_, by omega⟩
    · exact fun g listed => h.known g (List.mem_cons_of_mem _ listed)
    · intro g head _
      exact (h.outer g (List.mem_of_mem_head? head)).2

/-- All but the innermost handler ran a thread. -/
theorem Stack.length_le {frames : List Frame} (h : Stack enabled ctid frames) :
    frames.length ≤ ctid + 1 := by
  cases frames with
  | nil => simp
  | cons f rest =>
    have ran : rest.countP (·.ran) = rest.length :=
      List.countP_eq_length.mpr fun g listed => (h.outer g listed).2.2
    have turns := h.turns
    rw [List.countP_cons, ran] at turns
    rw [List.length_cons]
    omega

end

/-! ## What every step keeps -/

/-- Outside of ring 3. -/
structure Kernel (s : System) : Prop where
  service : s.pics.master.service = inService s.frames
  ready : s.pics.master.waiting = []
  closed : ∀ line, 2 ≤ line → line < 8 → s.pics.master.Masked line
  lines : ∀ line ∈ s.pics.master.requests, line < 8
  stack : Stack s.enabled s.threads.ctid s.frames
  few : s.threads.ctid ≤ 2

structure Invariant (s : System) : Prop where
  kernel : s.user = false → Kernel s
  user : s.user = true → s.enabled = false ∧ s.frames = []

theorem schedule_cases {t : Threads} (few : t.ctid ≤ 2) :
    (Threads.Call.executes t .tick = [] ∧ t.threadPitSchedule.ctid = t.ctid) ∨
      (Threads.Call.executes t .tick ≠ [] ∧ t.ctid < 2 ∧
        t.threadPitSchedule.ctid = t.ctid + 1) := by
  by_cases last : t.ctid ≥ maxThreads - 1
  · simp [Threads.Call.executes, Threads.threadPitSchedule, last]
  · by_cases empty : t.threads t.ctid = 0
    · simp [Threads.Call.executes, Threads.threadPitSchedule, empty]
    · have room : t.ctid < 2 := by
        unfold maxThreads at last
        omega
      have next : (t.ctid + 1) % 256 = t.ctid + 1 := by omega
      simp [Threads.Call.executes, Threads.threadPitSchedule, last, empty, room, next]

theorem Invariant.inside {s : System} (h : Invariant s) {f : Frame} {rest : List Frame}
    (inner : s.frames = f :: rest) : s.user = false := by
  cases ring3 : s.user with
  | false => rfl
  | true =>
    have none := (h.user ring3).2
    rw [inner] at none
    cases none

/-- The controller's part does not depend on what code does. -/
theorem Kernel.withStack {s : System} (h : Kernel s) {t : System} (pics : t.pics = s.pics)
    (service : inService t.frames = inService s.frames)
    (stack : Stack t.enabled t.threads.ctid t.frames) (few : t.threads.ctid ≤ 2) : Kernel t := by
  constructor
  · rw [pics, service, h.service]
  · rw [pics, h.ready]
  · simpa only [pics] using h.closed
  · simpa only [pics] using h.lines
  · exact stack
  · exact few

theorem Code.run_same (s : System) (c : Code) :
    (c.run s).pics = s.pics ∧ (c.run s).frames = s.frames ∧ (c.run s).user = s.user ∧
      (c.run s).threads.ctid = s.threads.ctid := by
  cases c with
  | unlistThread tid =>
    refine ⟨rfl, rfl, rfl, ?_⟩
    simp only [Code.run, Threads.unlistThread]
    split <;> rfl
  | _ => exact ⟨rfl, rfl, rfl, rfl⟩

theorem toggle_kernel {s : System} (h : Kernel s) {bits : Nat} (low : bits < 4) :
    Kernel { s with pics := s.pics.write pic1Data ((s.pics.master.imr ^^^ bits) % 256) } := by
  have written : s.pics.write pic1Data ((s.pics.master.imr ^^^ bits) % 256) =
      { s.pics with
        master := { s.pics.master with imr := (s.pics.master.imr ^^^ bits) % 256 } } := by
    simp [Pics.write, Chip.data, h.ready, pic1Data, pic1Command]
  rw [written]
  refine ⟨h.service, h.ready, fun line high below => ?_, h.lines, h.stack, h.few⟩
  have old : s.pics.master.imr.testBit line = true := h.closed line high below
  have small : bits < 2 ^ line :=
    Nat.lt_of_lt_of_le low (Nat.pow_le_pow_right (n := 2) (by decide) high)
  show ((s.pics.master.imr ^^^ bits) % 2 ^ 8).testBit line = true
  rw [Nat.testBit_mod_two_pow, Nat.testBit_xor, old, Nat.testBit_lt_two_pow small]
  simp [below]

theorem Pics.sendEOI_low (p : Pics) {line : Nat} (low : line < 2) :
    Pics.sendEOI p line = { p with master := p.master.endOfInterrupt } := by
  have first : ¬ line ≥ 8 := by omega
  simp [Pics.sendEOI, first, Pics.write, pic1Command, Chip.command]

/-- The end of the only interrupt in service. -/
theorem Chip.endOfInterrupt_single {c : Chip} {line : Nat} (service : c.service = {line}) :
    c.endOfInterrupt = { c with service := ∅ } := by
  simp [Chip.endOfInterrupt, service, Finset.filter_singleton]

theorem step_invariant {l : Source} {s t : System} (h : Invariant s) (step : Step l s t) :
    Invariant t := by
  cases step with
  | raise line below =>
    refine ⟨fun kernel => ?_, h.user⟩
    have k := h.kernel kernel
    refine ⟨k.service, k.ready, k.closed, fun j listed => ?_, k.stack, k.few⟩
    rcases Finset.mem_insert.mp listed with rfl | before
    · exact below
    · exact k.lines j before
  | deliver line enabled asks =>
    have kernel : s.user = false := by
      cases ring3 : s.user with
      | false => rfl
      | true => exact absurd enabled (by simp [(h.user ring3).1])
    have k := h.kernel kernel
    have low : line < 2 := by
      by_contra high
      have below := k.lines line asks.requested
      exact asks.isOpen (k.closed line (by omega) below)
    have stack := k.stack
    rw [enabled] at stack
    obtain ⟨free, stack⟩ := stack.deliver (k.service ▸ asks.above) low
    refine ⟨fun _ => ⟨?_, k.ready, k.closed, ?_, ?_, k.few⟩, fun ring3 => ?_⟩
    · simp [System.deliver, Chip.acknowledge, k.service, free, inService.eq_2]
    · exact fun j listed => k.lines j (Finset.mem_of_mem_erase listed)
    · simpa only [System.deliver, enabled] using stack
    · exact absurd ring3 (by simp [System.deliver, kernel])
  | timer f rest inner stage line =>
    have kernel := h.inside inner
    have k := h.kernel kernel
    have stack := k.stack
    rw [inner] at stack
    refine ⟨fun _ => ?_, fun ring3 => absurd ring3 (by simp [System.irq0Handler, kernel])⟩
    rcases schedule_cases k.few with ⟨none, same⟩ | ⟨some, room, next⟩
    · refine k.withStack rfl ?_ ?_ ?_
      · simp [System.irq0Handler, none, inner, inService, stage]
      · simp only [System.irq0Handler, none, ↓reduceIte, same]
        exact stack.move (by simp)
      · simp only [System.irq0Handler, same]
        exact k.few
    · refine k.withStack rfl ?_ ?_ ?_
      · simp [System.irq0Handler, some, inner, inService, stage]
      · simp only [System.irq0Handler, some, ↓reduceIte, next]
        exact stack.run line
      · simp only [System.irq0Handler, next]
        exact room
  | key f rest inner stage line =>
    have kernel := h.inside inner
    have k := h.kernel kernel
    have stack := k.stack
    rw [inner] at stack
    refine ⟨fun _ => ?_, fun ring3 => absurd ring3 (by simp [System.setStage, kernel])⟩
    refine k.withStack rfl ?_ ?_ ?_
    · simp [System.setStage, inner, inService, stage]
    · exact stack.move (by simp)
    · exact k.few
  | threadCode f rest inner stage c allowed =>
    have kernel := h.inside inner
    have k := h.kernel kernel
    obtain ⟨pics, frames, user, ctid⟩ := Code.run_same s c
    have stack := k.stack
    rw [inner] at stack
    refine ⟨fun _ => ?_, fun ring3 => absurd ring3 (by simp [user, kernel])⟩
    refine k.withStack pics ?_ ?_ ?_
    · rw [frames]
    · rw [ctid, frames, inner]
      exact stack.flag _ stage
    · rw [ctid]
      exact k.few
  | threadSleep f rest inner stage n =>
    have kernel := h.inside inner
    have k := h.kernel kernel
    have stack := k.stack
    rw [inner] at stack
    have runs := stack.inner f (by simp) (Or.inr ⟨none, stage⟩)
    refine ⟨fun _ => ?_, fun ring3 => absurd ring3 (by simp [System.setStage, kernel])⟩
    refine k.withStack rfl ?_ ?_ ?_
    · simp [System.setStage, inner, inService, stage]
    · exact stack.move fun _ => runs
    · exact k.few
  | threadWake f rest inner wake stage late =>
    have kernel := h.inside inner
    have k := h.kernel kernel
    have stack := k.stack
    rw [inner] at stack
    have runs := stack.inner f (by simp) (Or.inr ⟨some wake, stage⟩)
    refine ⟨fun _ => ?_, fun ring3 => absurd ring3 (by simp [System.setStage, kernel])⟩
    refine k.withStack rfl ?_ ?_ ?_
    · simp [System.setStage, inner, inService, stage]
    · exact stack.move fun _ => runs
    · exact k.few
  | threadReturn f rest inner stage =>
    have kernel := h.inside inner
    have k := h.kernel kernel
    have stack := k.stack
    rw [inner] at stack
    refine ⟨fun _ => ?_, fun ring3 => absurd ring3 (by simp [System.setStage, kernel])⟩
    refine k.withStack rfl ?_ ?_ ?_
    · simp [System.setStage, inner, inService, stage]
    · exact stack.move (by simp)
    · exact k.few
  | sendEOI f rest inner stage =>
    have kernel := h.inside inner
    have k := h.kernel kernel
    have stack := k.stack
    rw [inner] at stack
    have service : s.pics.master.service = {f.line} := by
      simp [k.service, inner, inService, stage]
    have low := (stack.known f (by simp)).1
    rw [Pics.sendEOI_low _ low, Chip.endOfInterrupt_single service]
    refine ⟨fun _ => ⟨?_, k.ready, k.closed, k.lines, ?_, k.few⟩,
      fun ring3 => absurd ring3 (by simp [System.setStage, kernel])⟩
    · simp [System.setStage, inService]
    · exact stack.move (by simp)
  | iretq f rest inner stage =>
    have kernel := h.inside inner
    have k := h.kernel kernel
    have stack := k.stack
    rw [inner] at stack
    obtain ⟨free, popped⟩ := stack.pop
    refine ⟨fun _ => ?_, fun ring3 => absurd ring3 (by simp [kernel])⟩
    refine k.withStack rfl ?_ ?_ ?_
    · rw [free, inner]
      simp [inService, stage]
    · exact popped
    · exact k.few
  | op op rest outside kernel awake next allowed =>
    have k := h.kernel kernel
    cases op with
    | code c =>
      obtain ⟨pics, frames, user, ctid⟩ := Code.run_same { s with program := rest } c
      refine ⟨fun _ => ?_, fun ring3 => absurd (user.symm.trans ring3) (by simp [kernel])⟩
      refine k.withStack pics ?_ ?_ ?_
      · rw [Op.run, frames]
      · rw [Op.run, ctid, frames]
        show Stack _ _ s.frames
        rw [outside]
        exact .nil _ _
      · rw [Op.run, ctid]
        exact k.few
    | pitSleep n => exact ⟨fun _ => k.withStack rfl rfl k.stack k.few, h.user⟩
    | toggle bits =>
      have k' : Kernel { s with program := rest } := k.withStack rfl rfl k.stack k.few
      exact ⟨fun _ => toggle_kernel k' allowed, h.user⟩
    | contextSwitch => exact ⟨fun kernel => (nomatch kernel), fun _ => ⟨rfl, outside⟩⟩
  | asleep outside wake sleeps early => exact h
  | awake outside wake sleeps late =>
    exact ⟨fun kernel => (h.kernel kernel).withStack rfl rfl (h.kernel kernel).stack
      (h.kernel kernel).few, h.user⟩
  | user ring3 port data =>
    exact ⟨fun kernel => absurd (ring3.symm.trans kernel) (by decide), h.user⟩

theorem start_invariant (program : List Op) : Invariant (start program) := by
  refine ⟨fun _ => ?_, fun ring3 => nomatch ring3⟩
  refine ⟨rfl, rfl, ?_, by simp [start, Chip.programmed], .nil _ _, Nat.zero_le 2⟩
  exact (by decide : ∀ line, 2 ≤ line → line < 8 → (0xFE : Nat).testBit line = true)

/-- The states of runs of the kernel with some boot routine. -/
abbrev Reachable (program : List Op) (s : System) : Prop := Leads Step (start program) s

theorem reachable_invariant {program : List Op} {s : System} (h : Reachable program s) :
    Invariant s :=
  Leads.invariant (P := Invariant) (fun _ _ _ kept step => step_invariant kept step) h
    (start_invariant program)

/-! ## Handlers -/

/-- A handler that has not ended its interrupt is alone in service. -/
theorem Invariant.service {s : System} (h : Invariant s) {f : Frame} {rest : List Frame}
    (inner : s.frames = f :: rest) (busy : f.stage ≠ .ended) :
    s.pics.master.service = {f.line} := by
  rw [(h.kernel (h.inside inner)).service, inner]
  simp [inService, busy]

/-- No line comes before the timer. -/
theorem Invariant.undisturbed {s : System} (h : Invariant s) {f : Frame} {rest : List Frame}
    (inner : s.frames = f :: rest) {wake : Option Nat} (stage : f.stage = .thread wake)
    (line : Nat) : ¬ s.pics.master.Asks line := by
  intro asks
  have stack := (h.kernel (h.inside inner)).stack
  rw [inner] at stack
  have zero := (stack.inner f (by simp) (Or.inr ⟨wake, stage⟩)).1
  have service := h.service inner (by simp [stage])
  have before := asks.above f.line (by simp [service])
  omega

structure Nested (s : System) : Prop where
  own : ∀ f rest, s.frames = f :: rest → f.stage = .served →
    s.pics.master.service = {f.line} ∧ (Pics.sendEOI s.pics f.line).master.service = ∅
  alone : ∀ f rest, s.frames = f :: rest → ∀ wake, f.stage = .thread wake →
    f.line = 0 ∧ ∀ line, ¬ s.pics.master.Asks line
  outer : ∀ f ∈ s.frames.tail, f.stage = .ended ∧ f.line = 0 ∧ f.ran = true
  depth : s.frames.length ≤ 3

/-- **Handlers nest in order**: each ends its own interrupt and no other, nothing
interrupts a thread, a handler is interrupted only behind its end of interrupt,
and at most three are under way. -/
theorem handlers_nest {program : List Op} {s : System} (h : Reachable program s) : Nested s := by
  have inv := reachable_invariant h
  constructor
  · intro f rest inner stage
    have k := inv.kernel (inv.inside inner)
    have stack := k.stack
    rw [inner] at stack
    have service := inv.service inner (by simp [stage])
    rw [Pics.sendEOI_low _ (stack.known f (by simp)).1, Chip.endOfInterrupt_single service]
    exact ⟨service, rfl⟩
  · intro f rest inner wake stage
    have stack := (inv.kernel (inv.inside inner)).stack
    rw [inner] at stack
    exact ⟨(stack.inner f (by simp) (Or.inr ⟨wake, stage⟩)).1, inv.undisturbed inner stage⟩
  · cases ring3 : s.user with
    | false => exact (inv.kernel ring3).stack.outer
    | true => simp [(inv.user ring3).2]
  · cases ring3 : s.user with
    | false =>
      have length := (inv.kernel ring3).stack.length_le
      have few := (inv.kernel ring3).few
      omega
    | true => simp [(inv.user ring3).2]

/-! ## Ticks -/

/-- Taken, but not counted yet. -/
def Frame.uncounted (f : Frame) : Bool := f.line = 0 ∧ f.stage = .entered

structure Accounted (s : System) : Prop where
  ticks : s.ticks = s.counted % 18446744073709551616
  edges : s.edges = s.missed + (if 0 ∈ s.pics.master.requests then 1 else 0) +
    s.frames.countP Frame.uncounted + s.counted

theorem Pics.sendEOI_requests (p : Pics) (line : Nat) :
    (Pics.sendEOI p line).master.requests = p.master.requests := by
  unfold Pics.sendEOI
  split <;> simp [Pics.write, pic1Command, pic1Data, pic2Command, Chip.command,
    Chip.endOfInterrupt]

theorem Chip.data_requests (c : Chip) (data : Nat) : (c.data data).requests = c.requests := by
  unfold Chip.data
  split <;> rfl

theorem Pics.toggle_requests (p : Pics) (data : Nat) :
    (p.write pic1Data data).master.requests = p.master.requests := by
  simp [Pics.write, pic1Command, pic1Data, Chip.data_requests]

/-- A handler goes on behind its first statement. -/
theorem Accounted.move {s t : System} (h : Accounted s) {f g : Frame} {rest : List Frame}
    (inner : s.frames = f :: rest) (inner' : t.frames = g :: rest)
    (counted : f.uncounted = false ∧ g.uncounted = false)
    (requests : t.pics.master.requests = s.pics.master.requests)
    (same : t.ticks = s.ticks ∧ t.counted = s.counted ∧ t.edges = s.edges ∧
      t.missed = s.missed) : Accounted t := by
  obtain ⟨ticks, count, edges, missed⟩ := same
  constructor
  · rw [ticks, count, h.ticks]
  · have before := h.edges
    rw [inner, List.countP_cons, counted.1] at before
    rw [inner', List.countP_cons, counted.2, edges, missed, count, requests, before]

theorem Code.run_counters (s : System) (c : Code) :
    (c.run s).ticks = s.ticks ∧ (c.run s).counted = s.counted ∧ (c.run s).edges = s.edges ∧
      (c.run s).missed = s.missed := by
  cases c <;> exact ⟨rfl, rfl, rfl, rfl⟩

theorem step_accounted {l : Source} {s t : System} (h : s.user = false → Accounted s)
    (step : Step l s t) (kernel : t.user = false) : Accounted t := by
  cases step with
  | raise line below =>
    have a := h kernel
    refine ⟨a.ticks, ?_⟩
    have edges := a.edges
    by_cases timer : line = 0
    · by_cases pending : 0 ∈ s.pics.master.requests
      · simp only [pending, ↓reduceIte] at edges
        simp only [System.raise, timer, pending, Finset.mem_insert_self, ↓reduceIte, and_self]
        omega
      · simp only [pending, ↓reduceIte] at edges
        simp only [System.raise, timer, pending, Finset.mem_insert_self, ↓reduceIte, and_false]
        omega
    · simp only [System.raise, timer, Finset.mem_insert, Ne.symm timer, false_or, false_and,
        ↓reduceIte]
      exact edges
  | deliver line enabled asks =>
    have a := h kernel
    refine ⟨a.ticks, ?_⟩
    have edges := a.edges
    by_cases timer : line = 0
    · subst timer
      simp only [asks.requested, ↓reduceIte] at edges
      simp only [System.deliver, Chip.acknowledge, Finset.notMem_erase, ↓reduceIte,
        List.countP_cons, Frame.uncounted, and_self, decide_true]
      exact edges.trans (by omega)
    · simp only [System.deliver, Chip.acknowledge, Finset.mem_erase, Ne.symm timer, ne_eq,
        not_false_eq_true, true_and, List.countP_cons, Frame.uncounted, timer, false_and,
        decide_false, Bool.false_eq_true, ↓reduceIte]
      exact edges
  | timer f rest inner stage line =>
    have a := h kernel
    have edges := a.edges
    rw [inner, List.countP_cons] at edges
    simp only [Frame.uncounted, line, stage, and_self, decide_true, ↓reduceIte] at edges
    constructor
    · simp only [System.irq0Handler, a.ticks]
      omega
    · have done : Frame.uncounted
          (if Threads.Call.executes s.threads .tick = [] then { f with stage := .served }
            else { f with stage := .thread none, ran := true }) = false := by
        split <;> simp [Frame.uncounted]
      show s.edges = s.missed + (if 0 ∈ s.pics.master.requests then 1 else 0) +
        List.countP Frame.uncounted (_ :: rest) + (s.counted + 1)
      rw [List.countP_cons, done, edges]
      simp only [Bool.false_eq_true, ↓reduceIte]
      omega
  | key f rest inner stage line =>
    exact (h kernel).move inner rfl (by simp [Frame.uncounted, line]) rfl ⟨rfl, rfl, rfl, rfl⟩
  | threadCode f rest inner stage c allowed =>
    obtain ⟨pics, frames, user, _⟩ := Code.run_same s c
    exact (h (user ▸ kernel)).move inner (frames.trans inner) (by simp [Frame.uncounted, stage])
      (by rw [pics]) (Code.run_counters s c)
  | threadSleep f rest inner stage n =>
    exact (h kernel).move inner rfl (by simp [Frame.uncounted, stage]) rfl ⟨rfl, rfl, rfl, rfl⟩
  | threadWake f rest inner wake stage late =>
    exact (h kernel).move inner rfl (by simp [Frame.uncounted, stage]) rfl ⟨rfl, rfl, rfl, rfl⟩
  | threadReturn f rest inner stage =>
    exact (h kernel).move inner rfl (by simp [Frame.uncounted, stage]) rfl ⟨rfl, rfl, rfl, rfl⟩
  | sendEOI f rest inner stage =>
    exact (h kernel).move inner rfl (by simp [Frame.uncounted, stage])
      (Pics.sendEOI_requests s.pics f.line) ⟨rfl, rfl, rfl, rfl⟩
  | iretq f rest inner stage =>
    have a := h kernel
    have edges := a.edges
    rw [inner, List.countP_cons] at edges
    exact ⟨a.ticks, by simpa [Frame.uncounted, stage] using edges⟩
  | op op rest outside ring0 awake next allowed =>
    have a := h ring0
    cases op with
    | code c =>
      obtain ⟨pics, frames, _, _⟩ := Code.run_same { s with program := rest } c
      obtain ⟨ticks, counted, edges, missed⟩ := Code.run_counters { s with program := rest } c
      constructor
      · rw [Op.run, ticks, counted]
        exact a.ticks
      · rw [Op.run, edges, missed, counted, pics, frames]
        exact a.edges
    | pitSleep n => exact ⟨a.ticks, a.edges⟩
    | toggle bits =>
      refine ⟨a.ticks, ?_⟩
      simp only [Op.run, Pics.toggle_requests]
      exact a.edges
    | contextSwitch => cases kernel
  | asleep outside wake sleeps early => exact h kernel
  | awake outside wake sleeps late => exact ⟨(h kernel).ticks, (h kernel).edges⟩
  | user ring3 port data => exact absurd (ring3.symm.trans kernel) (by decide)

theorem reachable_accounted {program : List Op} {s : System} (h : Reachable program s) :
    s.user = false → Accounted s := by
  have kept := Leads.invariant (P := fun s => s.user = false → Accounted s)
    (fun _ _ _ kept step => step_accounted kept step) h
  refine kept fun _ => ⟨rfl, ?_⟩
  simp [start, Chip.programmed]

/-- **Ticks are neither lost nor counted twice**: each edge of the timer line is
counted, waits to be, or came while another one was waiting. -/
theorem ticks_counted {program : List Op} {s : System} (h : Reachable program s)
    (kernel : s.user = false) : Accounted s :=
  reachable_accounted h kernel

/-! ## Sleeping threads -/

/-- A thread sleeps in the innermost handler, with everything as in `s`. -/
structure Stuck (s t : System) : Prop where
  user : t.user = false
  frames : t.frames = s.frames
  ticks : t.ticks = s.ticks
  service : t.pics.master.service = {0}

theorem step_stuck {s t u : System} {l : Source} {f : Frame} {rest : List Frame}
    (inner : s.frames = f :: rest) {wake : Nat} (stage : f.stage = .thread (some wake))
    (early : s.ticks < wake) (h : Stuck s t) (step : Step l t u) : Stuck s u := by
  have here := h.frames.trans inner
  have only {g : Frame} {more : List Frame} (inner' : t.frames = g :: more) : g = f := by
    rw [here, List.cons.injEq] at inner'
    exact inner'.1.symm
  cases step with
  | raise line below => exact ⟨h.user, h.frames, h.ticks, h.service⟩
  | deliver line enabled asks =>
    have before := asks.above 0 (by simp [h.service])
    omega
  | timer g more inner' entered line =>
    rw [only inner', stage] at entered
    cases entered
  | key g more inner' entered line =>
    rw [only inner', stage] at entered
    cases entered
  | threadCode g more inner' awake c allowed =>
    rw [only inner', stage] at awake
    cases awake
  | threadSleep g more inner' awake n =>
    rw [only inner', stage] at awake
    cases awake
  | threadWake g more inner' wake' asleep late =>
    rw [only inner', stage] at asleep
    cases asleep
    rw [h.ticks] at late
    omega
  | threadReturn g more inner' awake =>
    rw [only inner', stage] at awake
    cases awake
  | sendEOI g more inner' served =>
    rw [only inner', stage] at served
    cases served
  | iretq g more inner' ended =>
    rw [only inner', stage] at ended
    cases ended
  | op op more outside ring0 awake next allowed =>
    rw [here] at outside
    cases outside
  | asleep outside _ _ _ => exact h
  | awake outside _ _ _ => exact ⟨h.user, h.frames, h.ticks, h.service⟩
  | user ring3 port data => exact absurd (ring3.symm.trans h.user) (by decide)

theorem Invariant.stuck {s t : System} (h : Invariant s) {f : Frame} {rest : List Frame}
    (inner : s.frames = f :: rest) {wake : Nat} (stage : f.stage = .thread (some wake))
    (early : s.ticks < wake) (run : Leads Step s t) : Stuck s t := by
  have stack := (h.kernel (h.inside inner)).stack
  rw [inner] at stack
  have zero := (stack.inner f (by simp) (Or.inr ⟨some wake, stage⟩)).1
  have service := h.service inner (by simp [stage])
  exact run.invariant (fun _ _ _ kept step => step_stuck inner stage early kept step)
    ⟨h.inside inner, rfl, rfl, zero ▸ service⟩

/-- **A thread wakes from `pit_sleep`** only where it does not sleep at all: the
ticks it waits for would have to come while it keeps the timer in service. -/
theorem sleep_returns_iff {program : List Op} {s : System} (h : Reachable program s) {f : Frame}
    {rest : List Frame} (inner : s.frames = f :: rest) (stage : f.stage = .thread none) {n : Nat}
    (word : n < 18446744073709551616) :
    (∃ t, Leads Step (s.setStage f rest (.thread (some (eticks s.ticks n)))) t ∧
      t.frames = s.frames) ↔ n = 0 ∨ 18446744073709551616 ≤ s.ticks + n := by
  have inv := reachable_invariant h
  have ticks := (reachable_accounted h (inv.inside inner)).ticks
  have late : eticks s.ticks n ≤ s.ticks ↔ n = 0 ∨ 18446744073709551616 ≤ s.ticks + n := by
    unfold eticks
    omega
  have sleep : Step .handler s (s.setStage f rest (.thread (some (eticks s.ticks n)))) :=
    .threadSleep f rest inner stage n
  rw [← late]
  constructor
  · rintro ⟨t, run, back⟩
    by_contra early
    have stuck := (reachable_invariant (h.next sleep)).stuck rfl rfl (Nat.lt_of_not_le early) run
    rw [stuck.frames, inner] at back
    have awake := congrArg Frame.stage (List.cons.inj back).1
    rw [stage] at awake
    cases awake
  · intro late
    refine ⟨_, .single ⟨_, .threadWake _ rest rfl (eticks s.ticks n) rfl late⟩, ?_⟩
    rw [inner]
    show { f with stage := .thread none } :: rest = f :: rest
    rw [← stage]

/-! ## Ring 3 -/

/-- Nothing of the kernel runs, and `ticks` stays. -/
structure Undisturbed (s t : System) : Prop where
  user : t.user = true
  enabled : t.enabled = false
  frames : t.frames = []
  ticks : t.ticks = s.ticks
  threads : t.threads = s.threads

theorem Undisturbed.step {s t u : System} {l : Source} (h : Undisturbed s t) (step : Step l t u) :
    Undisturbed s u := by
  have none {f : Frame} {rest : List Frame} (inner : t.frames = f :: rest) : False := by
    rw [h.frames] at inner
    cases inner
  cases step with
  | raise line below => exact ⟨h.user, h.enabled, h.frames, h.ticks, h.threads⟩
  | deliver line open' asks => exact absurd (h.enabled.symm.trans open') (by decide)
  | timer f rest inner stage line => exact (none inner).elim
  | key f rest inner stage line => exact (none inner).elim
  | threadCode f rest inner stage c allowed => exact (none inner).elim
  | threadSleep f rest inner stage n => exact (none inner).elim
  | threadWake f rest inner wake stage late => exact (none inner).elim
  | threadReturn f rest inner stage => exact (none inner).elim
  | sendEOI f rest inner stage => exact (none inner).elim
  | iretq f rest inner stage => exact (none inner).elim
  | op op rest outside ring0 awake next allowed =>
    exact absurd (h.user.symm.trans ring0) (by decide)
  | asleep outside wake sleeps early => exact h
  | awake outside wake sleeps late => exact ⟨h.user, h.enabled, h.frames, h.ticks, h.threads⟩
  | user _ port data => exact ⟨h.user, h.enabled, h.frames, h.ticks, h.threads⟩

theorem Undisturbed.start {program : List Op} {s : System} (h : Reachable program s)
    (ring3 : s.user = true) : Undisturbed s s := by
  obtain ⟨enabled, frames⟩ := (reachable_invariant h).user ring3
  exact ⟨ring3, enabled, frames, rfl, rfl⟩

/-- The processor is asked to take a line. Those of the second chip come through
line 2 of the first one. -/
def Pics.Asks (p : Pics) (irq : Nat) : Prop :=
  if irq < 8 then irq ≠ 2 ∧ p.master.Asks irq
  else irq < 16 ∧ p.master.Asks 2 ∧ p.slave.Asks (irq - 8)

def Pics.take (p : Pics) (irq : Nat) : Pics :=
  if irq < 8 then { p with master := p.master.acknowledge irq }
  else { master := p.master.acknowledge 2, slave := p.slave.acknowledge (irq - 8) }

/-- Handlers that each end with `PIC_sendEOI` and may be interrupted before it,
while lines are raised and masked. -/
inductive Handles : Pics → Pics → Prop where
  | done (p : Pics) : Handles p p
  | raised {p q : Pics} (master slave : Finset Nat)
      (later : Handles ⟨{ p.master with requests := master },
        { p.slave with requests := slave }⟩ q) : Handles p q
  | masked {p q : Pics} (master slave : Nat)
      (later : Handles ⟨{ p.master with imr := master }, { p.slave with imr := slave }⟩ q) :
      Handles p q
  | handled {p q r : Pics} (irq : Nat) (asks : Pics.Asks p irq)
      (inner : Handles (Pics.take p irq) q) (later : Handles (Pics.sendEOI q irq) r) : Handles p r

/-- The line taken last has the highest priority. -/
theorem asks_endOfInterrupt {c d : Chip} {line : Nat} (asks : c.Asks line)
    (service : d.service = insert line c.service) : d.endOfInterrupt.service = c.service := by
  ext i
  rw [Chip.endOfInterrupt, Finset.mem_filter, service]
  constructor
  · rintro ⟨taken, j, before, less⟩
    rcases Finset.mem_insert.mp taken with rfl | taken
    · rcases Finset.mem_insert.mp before with rfl | before
      · exact absurd less (Nat.lt_irrefl _)
      · exact absurd (asks.above j before) (Nat.lt_asymm less)
    · exact taken
  · intro taken
    exact ⟨Finset.mem_insert_of_mem taken, line, Finset.mem_insert_self _ _, asks.above i taken⟩

theorem Pics.sendEOI_eq (p : Pics) (irq : Nat) : Pics.sendEOI p irq =
    { master := p.master.endOfInterrupt
      slave := if irq < 8 then p.slave else p.slave.endOfInterrupt } := by
  by_cases low : irq < 8
  · have first : ¬ irq ≥ 8 := by omega
    simp [Pics.sendEOI, first, low, Pics.write, pic1Command, Chip.command]
  · have second : irq ≥ 8 := by omega
    simp [Pics.sendEOI, second, low, Pics.write, pic1Command, pic1Data, pic2Command, Chip.command]

/-- **Every interrupt ends**: whatever handlers run inside one another, and on
whichever of the chips, afterwards the same lines are in service as before. -/
theorem handles_balanced {p q : Pics} (h : Handles p q) :
    q.master.service = p.master.service ∧ q.slave.service = p.slave.service := by
  induction h with
  | done p => exact ⟨rfl, rfl⟩
  | raised master slave later ih => exact ih
  | masked master slave later ih => exact ih
  | @handled p q r irq asks inner later ihInner ihLater =>
    obtain ⟨master, slave⟩ := ihInner
    rw [ihLater.1, ihLater.2, Pics.sendEOI_eq]
    unfold Pics.Asks at asks
    unfold Pics.take at master slave
    by_cases low : irq < 8
    · rw [if_pos low] at asks master slave ⊢
      exact ⟨asks_endOfInterrupt asks.2 master, slave⟩
    · rw [if_neg low] at asks master slave ⊢
      exact ⟨asks_endOfInterrupt asks.2.1 master, asks_endOfInterrupt asks.2.2 slave⟩

/-- Line 9 asks through line 2. -/
def cascaded : Pics := ⟨⟨[], 32, 4, 1, 0, {2}, ∅⟩, ⟨[], 40, 2, 1, 0, {1}, ∅⟩⟩

/-- The keyboard is raised while its handler runs. -/
def interrupted : Pics :=
  ⟨{ (Pics.take cascaded 9).master with requests := {1} },
    { (Pics.take cascaded 9).slave with requests := ∅ }⟩

theorem cascaded_handles :
    Handles cascaded (Pics.sendEOI (Pics.sendEOI (Pics.take interrupted 1) 1) 9) := by
  have first : Pics.Asks cascaded 9 :=
    ⟨by decide, ⟨by decide, by decide, by decide, by decide⟩,
      ⟨by decide, by decide, by decide, by decide⟩⟩
  have second : Pics.Asks interrupted 1 :=
    ⟨by decide, by decide, by decide, by decide, by decide⟩
  exact .handled 9 first (.raised {1} ∅ (.handled 1 second (.done _) (.done _))) (.done _)

theorem handles_balanced_cascaded :
    (Pics.sendEOI (Pics.sendEOI (Pics.take interrupted 1) 1) 9).master.service =
        cascaded.master.service ∧
      (Pics.sendEOI (Pics.sendEOI (Pics.take interrupted 1) 1) 9).slave.service =
        cascaded.slave.service :=
  handles_balanced cascaded_handles

/-! ## A thread runs, and ring 3 is entered -/

/-- Behind the two statements of a boot routine. -/
def threadReady : System :=
  Op.run { Op.run { start [.code (.mkthread 0x1000), .code .sti] with program := [.code .sti] }
    (.code (.mkthread 0x1000)) with program := [] } (.code .sti)

def timerFrame : Frame := ⟨0, .entered, false, true⟩

def threadRuns : System := ((threadReady.raise 0).deliver 0).irq0Handler timerFrame []

theorem threadRuns_reachable :
    Reachable [.code (.mkthread 0x1000), .code .sti] threadRuns := by
  have made : Step .main (start [.code (.mkthread 0x1000), .code .sti]) _ :=
    .op (.code (.mkthread 0x1000)) [.code .sti] rfl rfl rfl rfl ⟨by decide, by decide, by decide⟩
  have ready : Reachable _ threadReady :=
    (Leads.next .refl made).next (.op (.code .sti) [] rfl rfl rfl rfl trivial)
  have asks : (threadReady.raise 0).pics.master.Asks 0 :=
    ⟨Finset.mem_insert_self 0 _, by decide, fun j _ _ => Nat.zero_le j,
      fun j taken => nomatch taken⟩
  exact ((ready.next (.raise 0 (by decide))).next (.deliver 0 rfl asks)).next
    (.timer timerFrame [] rfl rfl rfl)

theorem handlers_nest_thread : Nested threadRuns := handlers_nest threadRuns_reachable

theorem ticks_counted_thread : Accounted threadRuns := ticks_counted threadRuns_reachable rfl

theorem sleep_returns_iff_thread :
    (∃ t, Leads Step (threadRuns.setStage ⟨0, .thread none, true, true⟩ []
        (.thread (some (eticks threadRuns.ticks 100)))) t ∧ t.frames = threadRuns.frames) ↔
      100 = 0 ∨ 18446744073709551616 ≤ threadRuns.ticks + 100 :=
  sleep_returns_iff threadRuns_reachable rfl rfl (by decide)

def ring3 : System := Op.run { start [.contextSwitch] with program := [] } .contextSwitch

end KessOS.Interrupts
