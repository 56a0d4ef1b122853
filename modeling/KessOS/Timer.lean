import KessOS.KernelInit

/-!
# Timer divisors

`set_pit_phase` and `pcspkr_play` divide the frequency of the timer chip by the
one asked for and write the quotient to a counter as two bytes. A counter takes
0 for 65536, so a quotient of more than 16 bits, or of 0, is another frequency.

* `setPitPhase_wrote`, `pcspkrPlay_wrote`: the bytes each of them writes;
* `timers_iff`: the frequencies whose divisor arrives.
-/

namespace KessOS

namespace Machine

def cli (s : Machine) : Machine :=
  s.onKernel fun k => { k with rflags := k.rflags &&& 0xfffffffffffffdff }

def sti (s : Machine) : Machine := s.onKernel fun k => { k with rflags := k.rflags ||| 0x200 }

def inportb (env : Env) (port : Nat) (s : Machine) : Nat := env.answer s.out port % 256

def pcspkrPlay (env : Env) (hz : Nat) (s : Machine) : Machine :=
  let s := s.cli
  let div := 1193180 / hz
  let s := s.outportb 0x43 0xB6
  let s := s.outportb 0x42 (div &&& 0xFF)
  let s := s.outportb 0x42 (div >>> 8)
  let tmp := s.inportb env 0x61
  let s := if tmp ≠ tmp ||| 3 then s.outportb 0x61 (tmp ||| 3) else s
  s.sti

end Machine

/-- What was written to a port between two states, in order. -/
def portBytes (port : Nat) (before after : Machine) : List Nat :=
  ((after.out.take (after.out.length - before.out.length)).reverse.filter (·.1 = port)).map (·.2)

/-- The chip counts 65536 for 0. -/
def countOf (n : Nat) : Nat := if n = 0 then 65536 else n

/-- A counter takes its reload value as a low and a high byte. -/
def reload : List Nat → Option Nat
  | [low, high] => some (countOf (low + 256 * high))
  | _ => none

/-- The divisor asked for, in the range of a counter. -/
def divisor (hz : Nat) : Nat := max 1 (min 65536 (1193180 / hz))

theorem portBytes_append (port : Nat) {before after : Machine} {new : List (Nat × Nat)}
    (out : after.out = new ++ before.out) :
    portBytes port before after = (new.reverse.filter (·.1 = port)).map (·.2) := by
  rw [portBytes, out, List.length_append, Nat.add_sub_cancel_right, List.take_left]

/-- The two bytes are the lower half of the quotient. -/
theorem reload_bytes (q : Nat) :
    reload [(q &&& 0xFF) % 256, (q >>> 8) % 256] = some (countOf (q % 65536)) := by
  have low : q &&& 0xFF = q % 256 := Nat.and_two_pow_sub_one_eq_mod q 8
  rw [reload, low, Nat.shiftRight_eq_div_pow]
  congr 2
  omega

theorem setPitPhase_wrote (hz : Nat) (s : Machine) :
    reload (portBytes 0x40 s (s.setPitPhase hz)) = some (countOf (1193180 / hz % 65536)) := by
  have out : (s.setPitPhase hz).out =
      [(0x40, ((1193180 / hz % 65536) >>> 8) % 256), (0x40, (1193180 / hz % 65536 &&& 0xFF) % 256),
        (0x43, 0x36)] ++ s.out := rfl
  rw [portBytes_append 0x40 out, show List.map _ _ = [_, _] from rfl, reload_bytes, Nat.mod_mod]

theorem pcspkrPlay_wrote (env : Env) (hz : Nat) (s : Machine) :
    reload (portBytes 0x42 s (s.pcspkrPlay env hz)) = some (countOf (1193180 / hz % 65536)) := by
  have out : ∃ gate : List (Nat × Nat), (∀ w ∈ gate, w.1 = 0x61) ∧ (s.pcspkrPlay env hz).out =
      (gate ++ [(0x42, ((1193180 / hz) >>> 8) % 256), (0x42, (1193180 / hz &&& 0xFF) % 256),
        (0x43, 0xB6)]) ++ s.out := by
    simp only [Machine.pcspkrPlay]
    split
    · exact ⟨[_], fun w listed => List.mem_singleton.mp listed ▸ rfl, rfl⟩
    · exact ⟨[], fun w listed => absurd listed List.not_mem_nil, rfl⟩
  obtain ⟨gate, other, out⟩ := out
  have none : gate.reverse.filter (·.1 = 0x42) = [] := by
    rw [List.filter_eq_nil_iff]
    intro w listed
    rw [other w (List.mem_reverse.mp listed)]
    decide
  rw [portBytes_append 0x42 out, List.reverse_append, List.filter_append, none, List.append_nil,
    show List.map _ _ = [_, _] from rfl, reload_bytes]

/-- Sixteen bits hold the quotient from 19 Hz on, and it is not 0 up to the
frequency of the chip. -/
theorem countOf_divisor {hz : Nat} (pos : 0 < hz) :
    countOf (1193180 / hz % 65536) = divisor hz ↔ 19 ≤ hz ∧ hz ≤ 1193180 := by
  by_cases low : hz < 19
  · have wrong : ∀ hz, hz < 19 → 0 < hz → countOf (1193180 / hz % 65536) ≠ divisor hz := by decide
    constructor
    · exact fun same => absurd same (wrong hz low pos)
    · rintro ⟨high, _⟩
      omega
  · have small : 1193180 / hz ≤ 1193180 / 19 := Nat.div_le_div_left (by omega) (by decide)
    rw [Nat.mod_eq_of_lt (by omega)]
    by_cases high : hz ≤ 1193180
    · have some : 0 < 1193180 / hz := Nat.div_pos high pos
      rw [countOf, if_neg (by omega), divisor]
      omega
    · have none : 1193180 / hz = 0 := Nat.div_eq_of_lt (by omega)
      rw [none, countOf, if_pos rfl, divisor, none]
      omega

/-- **The divisors that arrive** at the timer and at the speaker. -/
theorem timers_iff (env : Env) (s : Machine) {hz : UInt32} (pos : 0 < hz.toNat) :
    (reload (portBytes 0x40 s (s.setPitPhase hz.toNat)) = some (divisor hz.toNat) ↔
      19 ≤ hz.toNat ∧ hz.toNat ≤ 1193180) ∧
    (reload (portBytes 0x42 s (s.pcspkrPlay env hz.toNat)) = some (divisor hz.toNat) ↔
      19 ≤ hz.toNat ∧ hz.toNat ≤ 1193180) := by
  rw [setPitPhase_wrote, pcspkrPlay_wrote, Option.some.injEq]
  exact ⟨countOf_divisor pos, countOf_divisor pos⟩

/-- The image at boot, with ports that answer 0. -/
def quietEnv : Env := ⟨Vmm.lowRoot, 0x2000, 0x3000, fun _ => 0x4000, fun _ _ => 0⟩

theorem timers_iff_boot :
    (reload (portBytes 0x40 (.atStart (fun _ => 0) 0x2)
        ((Machine.atStart (fun _ => 0) 0x2).setPitPhase (100 : UInt32).toNat)) =
          some (divisor (100 : UInt32).toNat) ↔
      19 ≤ (100 : UInt32).toNat ∧ (100 : UInt32).toNat ≤ 1193180) ∧
    (reload (portBytes 0x42 (.atStart (fun _ => 0) 0x2)
        ((Machine.atStart (fun _ => 0) 0x2).pcspkrPlay quietEnv (100 : UInt32).toNat)) =
          some (divisor (100 : UInt32).toNat) ↔
      19 ≤ (100 : UInt32).toNat ∧ (100 : UInt32).toNat ≤ 1193180) :=
  timers_iff quietEnv _ (by decide)

/-- At 1 Hz the timer gets 13532, the lower half of the quotient. -/
theorem one_hertz_truncated :
    reload (portBytes 0x40 (.atStart (fun _ => 0) 0x2)
      ((Machine.atStart (fun _ => 0) 0x2).setPitPhase 1)) ≠ some (divisor 1) := by
  rw [setPitPhase_wrote]
  decide

end KessOS
