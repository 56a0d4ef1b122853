import KessOS.Timer

/-!
# The timer chip and the speaker

Three counters take their values in two bytes after a command, and port 0x61
lets the third one through to the speaker. `set_pit_phase`, `pcspkr_play` and
`pcspkr_shutup` share the chip.

* `step_sound`: what one call does to the rate of the timer, to the pitch, to the
  speaker and to the interrupt flag;
* `sound_follows`: so what any calls do, whatever the firmware left in the chip.
-/

namespace KessOS

/-! ## The chip -/

/-- `access` tells which bytes a value takes, 3 for both, and `low` is the first of
two that arrived. -/
structure Counter where
  access : Nat
  low : Option Nat
  count : Nat

namespace Counter

def data (data : Nat) (c : Counter) : Counter :=
  match c.access, c.low with
  | 3, none => { c with low := some data }
  | 3, some low => { c with low := none, count := countOf (low + 256 * data) }
  | 2, _ => { c with count := countOf (256 * data) }
  | _, _ => { c with count := countOf data }

/-- Without access bits a command only latches the count. -/
def command (data : Nat) (c : Counter) : Counter :=
  if data / 16 % 4 = 0 then c else { c with access := data / 16 % 4, low := none }

end Counter

/-- The counters of the timer, of the memory refresh and of the speaker, and what
was written to port 0x61. -/
structure Board where
  timer : Counter
  refresh : Counter
  tone : Counter
  gate : Nat

namespace Board

def write (b : Board) (port data : Nat) : Board :=
  if port = 0x40 then { b with timer := b.timer.data data }
  else if port = 0x41 then { b with refresh := b.refresh.data data }
  else if port = 0x42 then { b with tone := b.tone.data data }
  else if port = 0x43 then
    if data / 64 = 0 then { b with timer := b.timer.command data }
    else if data / 64 = 1 then { b with refresh := b.refresh.command data }
    else if data / 64 = 2 then { b with tone := b.tone.command data }
    else b
  else if port = 0x61 then { b with gate := data }
  else b

/-- The board after some output, latest first. -/
def after (b : Board) (out : List (Nat × Nat)) : Board := out.foldr (fun w b => b.write w.1 w.2) b

end Board

/-- The lower half of port 0x61 reads as it was written, the upper half is status. -/
def GateAnswers (env : Env) (power : Board) : Prop :=
  ∀ out, env.answer out 0x61 % 16 = (power.after out).gate % 16

def Machine.pcspkrShutup (env : Env) (s : Machine) : Machine :=
  s.outportb 0x61 (s.inportb env 0x61 &&& 0xFC)

/-! ## Calls -/

/-- Calls that write to ports. A frequency of 0 would be a division by zero. -/
inductive SoundCall where
  | setPitPhase (hz : Nat) (pos : 0 < hz)
  | play (hz : Nat) (pos : 0 < hz)
  | shutup
  | other (port data : Nat) (apart : port ∉ [0x40, 0x41, 0x42, 0x43, 0x61])

def SoundCall.run (env : Env) (s : Machine) : SoundCall → Machine
  | .setPitPhase hz _ => s.setPitPhase hz
  | .play hz _ => s.pcspkrPlay env hz
  | .shutup => s.pcspkrShutup env
  | .other port data _ => s.outportb port data

/-- What the user hears, and what the calls share: `others` are the bits of port
0x61 that are not about the speaker. -/
@[ext] structure Sound where
  rate : Nat
  pitch : Nat
  on : Bool
  others : Nat
  interrupts : Bool

def Sound.of (power : Board) (s : Machine) : Sound where
  rate := (power.after s.out).timer.count
  pitch := (power.after s.out).tone.count
  on := (power.after s.out).gate % 4 = 3
  others := (power.after s.out).gate / 4 % 4
  interrupts := s.kernel.rflags.testBit 9

/-- The count that a frequency stands for. -/
def count (hz : Nat) : Nat := countOf (1193180 / hz % 65536)

def SoundCall.apply (a : Sound) : SoundCall → Sound
  | .setPitPhase hz _ => { a with rate := count hz }
  | .play hz _ => { a with pitch := count hz, on := true, interrupts := true }
  | .shutup => { a with on := false }
  | .other _ _ _ => a

/-! ## What a call does -/

theorem Board.after_cons (b : Board) (port data : Nat) (out : List (Nat × Nat)) :
    b.after ((port, data) :: out) = (b.after out).write port data := rfl

/-- Two bytes behind a command for both. -/
theorem Counter.load (c : Counter) {command : Nat} (both : command / 16 % 4 = 3) (q : Nat) :
    (((c.command command).data ((q &&& 0xFF) % 256)).data ((q >>> 8) % 256)).count =
      countOf (q % 65536) := by
  have value := reload_bytes q
  rw [reload, Option.some.injEq] at value
  rw [Counter.command, if_neg (by omega), both]
  exact value

/-- The two bits of the speaker in a byte. -/
theorem speaker_bits {t : Nat} (byte : t < 256) :
    (t ||| 3) % 4 = 3 ∧ (t ||| 3) / 4 = t / 4 ∧ (t = t ||| 3 ↔ t % 4 = 3) ∧ (t ||| 3) < 256 ∧
      (t &&& 0xFC) % 4 = 0 ∧ (t &&& 0xFC) / 4 = t / 4 ∧ (t &&& 0xFC) < 256 := by
  revert t
  decide +kernel

section
variable {env : Env} {power : Board}

theorem setPitPhase_sound (hz : Nat) (s : Machine) :
    Sound.of power (s.setPitPhase hz) = { Sound.of power s with rate := count hz } := by
  have board : power.after (s.setPitPhase hz).out = { power.after s.out with
      timer := (((power.after s.out).timer.command 0x36).data
        ((1193180 / hz % 65536 &&& 0xFF) % 256)).data
          (((1193180 / hz % 65536) >>> 8) % 256) } := rfl
  have loaded := Counter.load (power.after s.out).timer (show 0x36 / 16 % 4 = 3 by decide)
    (1193180 / hz % 65536)
  rw [Nat.mod_mod] at loaded
  simp only [Sound.of, board, loaded]
  rfl

theorem pcspkrPlay_sound (answers : GateAnswers env power) (hz : Nat) (s : Machine) :
    Sound.of power (s.pcspkrPlay env hz) =
      { Sound.of power s with pitch := count hz, on := true, interrupts := true } := by
  have loaded := Counter.load (power.after s.out).tone (show 0xB6 / 16 % 4 = 3 by decide)
    (1193180 / hz)
  have flag (k : Kernel) : (k.rflags ||| 0x200).testBit 9 = true := by
    rw [Nat.testBit_or]
    simp [Nat.testBit]
  unfold Machine.pcspkrPlay
  dsimp only
  generalize made : ((s.cli.outportb 0x43 0xB6).outportb 0x42 (1193180 / hz &&& 0xFF)).outportb 0x42
    ((1193180 / hz) >>> 8) = t
  have board : power.after t.out = { power.after s.out with
      tone := (((power.after s.out).tone.command 0xB6).data ((1193180 / hz &&& 0xFF) % 256)).data
        (((1193180 / hz) >>> 8) % 256) } := by
    rw [← made]
    rfl
  have reads := answers t.out
  have byte : t.inportb env 0x61 < 256 := Nat.mod_lt _ (by decide)
  have low : t.inportb env 0x61 % 16 = (power.after s.out).gate % 16 := by
    rw [Machine.inportb]
    rw [board] at reads
    dsimp only at reads
    omega
  obtain ⟨on, others, open', small, _⟩ := speaker_bits byte
  by_cases changed : t.inportb env 0x61 ≠ t.inportb env 0x61 ||| 3
  · have opened : power.after (t.outportb 0x61 (t.inportb env 0x61 ||| 3)).sti.out =
        { power.after t.out with gate := (t.inportb env 0x61 ||| 3) % 256 } := rfl
    rw [if_pos changed]
    simp only [Sound.of, opened, board, loaded, Nat.mod_eq_of_lt small]
    simp only [Sound.mk.injEq, Machine.sti, Machine.onKernel, flag, true_and, and_true]
    refine ⟨rfl, by simp [on], by omega⟩
  · rw [if_neg changed]
    have same : power.after t.sti.out = power.after t.out := rfl
    have already := open'.mp (not_not.mp changed)
    simp only [Sound.of, same, board, loaded]
    simp only [Sound.mk.injEq, Machine.sti, Machine.onKernel, flag, true_and, and_true]
    exact ⟨rfl, by simp; omega⟩

theorem pcspkrShutup_sound (answers : GateAnswers env power) (s : Machine) :
    Sound.of power (s.pcspkrShutup env) = { Sound.of power s with on := false } := by
  have reads := answers s.out
  have byte : s.inportb env 0x61 < 256 := Nat.mod_lt _ (by decide)
  obtain ⟨_, _, _, _, off, others, small⟩ := speaker_bits byte
  have closed : power.after (s.pcspkrShutup env).out =
      { power.after s.out with gate := (s.inportb env 0x61 &&& 0xFC) % 256 } := rfl
  have low : s.inportb env 0x61 % 16 = (power.after s.out).gate % 16 := by
    rw [Machine.inportb]
    omega
  simp only [Sound.of, closed, Nat.mod_eq_of_lt small, off]
  simp only [Sound.mk.injEq, true_and]
  refine ⟨by decide, by omega, rfl⟩

/-- **What one call does.** -/
theorem step_sound (answers : GateAnswers env power) (s : Machine) (call : SoundCall) :
    Sound.of power (call.run env s) = call.apply (Sound.of power s) := by
  cases call with
  | setPitPhase hz pos => exact setPitPhase_sound hz s
  | play hz pos => exact pcspkrPlay_sound answers hz s
  | shutup => exact pcspkrShutup_sound answers s
  | other port data apart =>
    have kept : power.after (s.outportb port data).out = power.after s.out := by
      rw [Machine.outportb, Board.after_cons, Board.write]
      simp only [List.mem_cons, List.not_mem_nil, or_false, not_or] at apart
      obtain ⟨h0, h1, h2, h3, h4⟩ := apart
      rw [if_neg h0, if_neg h1, if_neg h2, if_neg h3, if_neg h4]
    rw [SoundCall.run, Sound.of, kept]
    rfl

/-- **The calls follow one another**, whatever they found in the chip. -/
theorem sound_follows (answers : GateAnswers env power) (calls : List SoundCall) (s : Machine) :
    Sound.of power (calls.foldl (SoundCall.run env) s) =
      calls.foldl SoundCall.apply (Sound.of power s) := by
  induction calls generalizing s with
  | nil => rfl
  | cons call calls ih => rw [List.foldl_cons, List.foldl_cons, ih, step_sound answers]

end

/-! ## The beep at boot -/

/-- A chip whose timer waits for a second byte. -/
def firmwareBoard : Board where
  timer := ⟨3, some 0x12, 65536⟩
  refresh := ⟨1, none, 18⟩
  tone := ⟨2, none, 256⟩
  gate := 0x0D

def firmwareGate : Env := { quietEnv with answer := fun out _ => (firmwareBoard.after out).gate }

def bootBeep : List SoundCall :=
  [.setPitPhase 100 (by decide), .play 500 (by decide), .shutup]

theorem sound_follows_beep :
    Sound.of firmwareBoard
        (bootBeep.foldl (SoundCall.run firmwareGate) (.atStart (fun _ => 0) 0x2)) =
      bootBeep.foldl SoundCall.apply (Sound.of firmwareBoard (.atStart (fun _ => 0) 0x2)) :=
  sound_follows (fun _ => rfl) bootBeep _

end KessOS
