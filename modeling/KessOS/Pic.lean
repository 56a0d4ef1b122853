import Mathlib.Data.Finset.Basic
import KessOS.Idt
import KessOS.Keyboard
import KessOS.Timer

/-!
# The interrupt controllers

Two chips of eight lines take four initialization words each and then a mask.
What the kernel wrote to its ports tells the state of the chips, and of one
port what it reads back.

* `init_programs`: the chips after `init`, whatever they were before;
* `keyboardInits_mask`: the mask after any number of `ps2_keyboard_init`;
* `lines_wired`: each open line has a gate with its own handler, and no line
  has the vector of an exception.
-/

namespace KessOS

open Machine (pic1Command pic1Data pic2Command pic2Data)

/-! ## The chips -/

inductive InitWord where
  | icw2
  | icw3
  | icw4

/-- `waiting` holds the initialization words still to come, `requests` the
lines that were raised and `service` those the processor took. -/
structure Chip where
  waiting : List InitWord
  offset : Nat
  cascade : Nat
  mode : Nat
  imr : Nat
  requests : Finset Nat
  service : Finset Nat

namespace Chip

/-- A first initialization word starts over; bits 0 and 1 say which words follow. -/
def restart (data : Nat) (c : Chip) : Chip :=
  { c with
    waiting := .icw2 :: ((if data &&& 2 = 0 then [.icw3] else []) ++
      if data &&& 1 = 0 then [] else [.icw4])
    mode := if data &&& 1 = 0 then 0 else c.mode
    imr := 0
    requests := ∅
    service := ∅ }

/-- The end of the interrupt with the highest priority, which is the lowest line. -/
def endOfInterrupt (c : Chip) : Chip :=
  { c with service := c.service.filter fun i => ∃ j ∈ c.service, j < i }

/-- A byte at the command port. Of the other commands only the unspecific end of
interrupt is used. -/
def command (data : Nat) (c : Chip) : Chip :=
  if data &&& 0x10 ≠ 0 then c.restart data
  else if data = 0x20 then c.endOfInterrupt
  else c

/-- A byte at the data port. -/
def data (data : Nat) (c : Chip) : Chip :=
  match c.waiting with
  | [] => { c with imr := data }
  | .icw2 :: rest => { c with waiting := rest, offset := data / 8 * 8 }
  | .icw3 :: rest => { c with waiting := rest, cascade := data }
  | .icw4 :: rest => { c with waiting := rest, mode := data }

def Masked (c : Chip) (line : Nat) : Prop := c.imr.testBit line = true

instance (c : Chip) (line : Nat) : Decidable (c.Masked line) :=
  inferInstanceAs (Decidable (_ = true))

/-- The line the chip asks the processor to take: requested and open, before
every other such line and every line in service. -/
structure Asks (c : Chip) (line : Nat) : Prop where
  requested : line ∈ c.requests
  isOpen : ¬ c.Masked line
  first : ∀ j ∈ c.requests, ¬ c.Masked j → line ≤ j
  above : ∀ j ∈ c.service, line < j

/-- The processor takes the line. -/
def acknowledge (line : Nat) (c : Chip) : Chip :=
  { c with requests := c.requests.erase line, service := insert line c.service }

/-- Initialized for 8086 processors, with nothing requested. -/
def programmed (offset cascade imr : Nat) : Chip where
  waiting := []
  offset := offset
  cascade := cascade
  mode := 1
  imr := imr
  requests := ∅
  service := ∅

end Chip

structure Pics where
  master : Chip
  slave : Chip

namespace Pics

def write (p : Pics) (port data : Nat) : Pics :=
  if port = pic1Command then { p with master := p.master.command data }
  else if port = pic1Data then { p with master := p.master.data data }
  else if port = pic2Command then { p with slave := p.slave.command data }
  else if port = pic2Data then { p with slave := p.slave.data data }
  else p

/-- The chips after some output, latest first. -/
def after (p : Pics) (out : List (Nat × Nat)) : Pics := out.foldr (fun w p => p.write w.1 w.2) p

end Pics

/-- The data port of the first chip answers with its mask. -/
def Answers (env : Env) (power : Pics) : Prop :=
  ∀ out, env.answer out pic1Data = (power.after out).master.imr

namespace Machine

def ps2KeyboardInit (env : Env) (s : Machine) : Machine :=
  let s := s.log .info "Initalizing ps/2 keyboard..\n"
  s.outportb pic1Data (s.inportb env pic1Data ^^^ (1 <<< 1))

def footerInit (env : Env) (s : Machine) : Machine := (s.ps2KeyboardInit env).onKernel ioplZero

def keyboardInits (env : Env) : Nat → Machine → Machine
  | 0, s => s
  | n + 1, s => (keyboardInits env n s).ps2KeyboardInit env

end Machine

/-! ## Programming -/

section
variable (power : Pics)

@[simp] theorem after_outportb (s : Machine) (port data : Nat) :
    power.after (s.outportb port data).out = (power.after s.out).write port (data % 256) := rfl

/-- Four words and a mask for each chip. -/
theorem after_initPic (s : Machine) :
    power.after s.initPic.out = ⟨.programmed 0x20 4 0xFF, .programmed 0x28 2 0xFF⟩ := rfl

@[simp] theorem endAcpi_out (s : Machine) (r : Except String Acpi.Tables) :
    (s.endAcpi r).out = s.out := by
  cases r <;> rfl

theorem init_out (env : Env) (meminfo : Meminfo) (rsdp : Nat) (s : Machine) :
    (s.init env meminfo rsdp).out = (s.initBefore env).out := by
  rw [Machine.init, Machine.acpiInit, endAcpi_out]
  rfl

/-- Between `init_pic` and the mask only the timer is written to. -/
theorem initBefore_out (env : Env) (s : Machine) :
    ∃ t : Machine, power.after t.out = ⟨.programmed 0x20 4 0xFF, .programmed 0x28 2 0xFF⟩ ∧
      s.initBefore env = t.outportb pic1Data (env.answer t.out pic1Data ^^^ 1) :=
  ⟨_, rfl, rfl⟩

/-- **The chips after `init`**: vectors from 32 and 40 on, the second chip on line
2 of the first, and only the timer open. -/
theorem init_programs {env : Env} (answers : Answers env power) (meminfo : Meminfo) (rsdp : Nat)
    (s : Machine) : power.after (s.init env meminfo rsdp).out =
      ⟨.programmed 0x20 4 0xFE, .programmed 0x28 2 0xFF⟩ := by
  obtain ⟨t, chips, before⟩ := initBefore_out power env s
  rw [init_out, before, after_outportb, answers, chips]
  rfl

theorem ps2KeyboardInit_mask {env : Env} (answers : Answers env power) {s : Machine} {imr : Nat}
    (small : imr < 256)
    (chips : power.after s.out = ⟨.programmed 0x20 4 imr, .programmed 0x28 2 0xFF⟩) :
    power.after (s.ps2KeyboardInit env).out =
      ⟨.programmed 0x20 4 (imr ^^^ 2), .programmed 0x28 2 0xFF⟩ := by
  have byte : (imr ^^^ 2) % 256 = imr ^^^ 2 :=
    Nat.mod_eq_of_lt (Nat.xor_lt_two_pow (n := 8) small (by decide))
  have reads : (s.log .info "Initalizing ps/2 keyboard..\n").inportb env pic1Data = imr := by
    rw [Machine.inportb, answers, show (s.log .info _).out = s.out from rfl, chips]
    exact Nat.mod_eq_of_lt small
  rw [Machine.ps2KeyboardInit, after_outportb, reads, show 1 <<< 1 = 2 from rfl, byte,
    show (s.log .info _).out = s.out from rfl, chips]
  rfl

/-- **The keyboard is open after every other call**, and no other line changes. -/
theorem keyboardInits_mask {env : Env} (answers : Answers env power) (meminfo : Meminfo)
    (rsdp : Nat) (s : Machine) (n : Nat) :
    power.after (Machine.keyboardInits env n (s.init env meminfo rsdp)).out =
      ⟨.programmed 0x20 4 (if n % 2 = 1 then 0xFC else 0xFE), .programmed 0x28 2 0xFF⟩ := by
  induction n with
  | zero => exact init_programs power answers meminfo rsdp s
  | succ n ih =>
    rw [Machine.keyboardInits]
    by_cases odd : n % 2 = 1
    · have even : ¬ (n + 1) % 2 = 1 := by omega
      rw [if_pos odd] at ih
      rw [if_neg even]
      exact ps2KeyboardInit_mask power answers (by decide) ih
    · have next : (n + 1) % 2 = 1 := by omega
      rw [if_neg odd] at ih
      rw [if_pos next]
      exact ps2KeyboardInit_mask power answers (by decide) ih

end

/-! ## The gates of the lines -/

/-- A registration of `init`: the vector, its handler and the flags. -/
structure BootVector where
  vec : Nat
  handler : Handler
  flags : Nat

def bootVectors : List BootVector :=
  [⟨0x0, .div0Handler, 0x8F⟩, ⟨0x1, .debugException, 0x8F⟩, ⟨0x4, .overflowException, 0x8F⟩,
    ⟨0x5, .breException, 0x8F⟩, ⟨0x6, .invalidOpcodeException, 0x8F⟩,
    ⟨0x7, .devNotAvailException, 0x8F⟩, ⟨0x8, .doubleFault, 0x8F⟩,
    ⟨0xA, .invalidTssException, 0x8F⟩, ⟨0xB, .snpException, 0x8F⟩, ⟨0xC, .stacksegFault, 0x8F⟩,
    ⟨0xD, .gpf, 0x8F⟩, ⟨0xE, .pageFault, 0x8F⟩, ⟨0x20, .irq0Handler, 0x8E⟩,
    ⟨0x21, .irq1Handler, 0x8E⟩, ⟨0x80, .syscallGate, 0xEE⟩]

/-- A gate for the handler at a 64-bit address. -/
def BootVector.gate (env : Env) (e : BootVector) : Gate :=
  ⟨env.isr e.handler % 18446744073709551616, 0x08, 0, e.flags, 0⟩

/-- The privilege level from which `int` may use a gate. -/
def Gate.dpl (g : Gate) : Nat := g.attr >>> 5 &&& 3

/-- The processor finds in the table the gates of `init` and no others. -/
structure Wired (env : Env) (idt : Nat → IdtVector) : Prop where
  gate : ∀ e ∈ bootVectors, Gate.read (idtBytes idt) (16 * e.vec) = e.gate env
  empty : ∀ v, (∀ e ∈ bootVectors, e.vec ≠ v) → Gate.read (idtBytes idt) (16 * v) = emptyGate

theorem setIdtVec_gate_at (s : Machine) (vec isr flags v : Nat) :
    ((s.setIdtVec vec isr flags).idt v).gate =
      if v = vec then ⟨isr % 18446744073709551616, 0x08, 0, flags % 256, 0⟩
      else (s.idt v).gate := by
  have low : isr &&& 0xFFFF = isr % 65536 := Nat.and_two_pow_sub_one_eq_mod isr 16
  have mid : isr >>> 16 &&& 0xFFFF = isr / 65536 % 65536 := Bits.shift_and isr 16 16
  have high : isr >>> 32 &&& 0xFFFFFFFF = isr / 4294967296 % 4294967296 := Bits.shift_and isr 32 32
  by_cases here : v = vec
  · simp only [Machine.setIdtVec, here, ↓reduceIte, IdtVector.gate, low, mid, high, Gate.mk.injEq,
      Nat.mod_mod, and_true]
    omega
  · simp only [Machine.setIdtVec, here, ↓reduceIte]

theorem endAcpi_idt (s : Machine) (r : Except String Acpi.Tables) :
    (s.endAcpi r).idt = s.idt := by
  cases r <;> rfl

/-- What `init` does besides leaves the table alone. -/
theorem initBefore_idt (env : Env) (s : Machine) :
    (s.initBefore env).idt = ((((s.setExceptions env).setIdtVec 0x20 (env.isr .irq0Handler)
      Machine.intGateFlags).setIdtVec 0x21 (env.isr .irq1Handler) Machine.intGateFlags).setIdtVec
        0x80 (env.isr .syscallGate) Machine.idtIntGateUser).idt := rfl

theorem init_wired (env : Env) (m : Mem) (rflags : Nat) (meminfo : Meminfo) (rsdp : Nat) :
    Wired env ((Machine.atStart m rflags).init env meminfo rsdp).idt := by
  have table : ((Machine.atStart m rflags).init env meminfo rsdp).idt =
      ((Machine.atStart m rflags).initBefore env).idt := by
    rw [Machine.init, Machine.acpiInit, endAcpi_idt]
    rfl
  constructor
  · intro e listed
    rw [gate_read, table]
    simp only [bootVectors, List.mem_cons, List.not_mem_nil, or_false] at listed
    rcases listed with rfl | rfl | rfl | rfl | rfl | rfl | rfl | rfl | rfl | rfl | rfl | rfl |
      rfl | rfl | rfl <;>
      simp [setIdtVec_gate_at, initBefore_idt, Machine.setExceptions, BootVector.gate,
        Machine.trapGateFlags, Machine.intGateFlags, Machine.idtIntGateUser]
  · intro v other
    simp only [bootVectors, List.forall_mem_cons, List.not_mem_nil, false_implies, implies_true,
      and_true, ne_eq, eq_comm (b := v)] at other
    rw [gate_read, table]
    simp only [initBefore_idt, setIdtVec_gate_at, Machine.setExceptions, other, ↓reduceIte]
    rfl

/-- Of all vectors only that of the system calls is open to ring 3. -/
theorem Wired.dpl_iff {env : Env} {idt : Nat → IdtVector} (h : Wired env idt) (v : Nat) :
    (Gate.read (idtBytes idt) (16 * v)).dpl = 3 ↔ v = 0x80 := by
  by_cases listed : ∃ e ∈ bootVectors, e.vec = v
  · obtain ⟨e, listed, rfl⟩ := listed
    rw [h.gate e listed]
    revert listed e
    simp [bootVectors, BootVector.gate, Gate.dpl]
  · push Not at listed
    rw [h.empty v listed]
    have other := listed ⟨0x80, .syscallGate, 0xEE⟩ (by simp [bootVectors])
    exact iff_of_false (by decide) (Ne.symm other)

/-- What the chips and the table have to do with each other. -/
structure LinesWired (env : Env) (chips : Pics) (idt : Nat → IdtVector) : Prop where
  opened : ∀ line, line < 8 → (¬ chips.master.Masked line ↔ line < 2)
  closed : ∀ line, line < 8 → chips.slave.Masked line
  timer : Gate.read (idtBytes idt) (16 * chips.master.offset) =
    ⟨env.isr .irq0Handler % 18446744073709551616, 0x08, 0, 0x8E, 0⟩
  keyboard : Gate.read (idtBytes idt) (16 * (chips.master.offset + 1)) =
    ⟨env.isr .irq1Handler % 18446744073709551616, 0x08, 0, 0x8E, 0⟩
  apart : ∀ line, line < 8 → ∀ e ∈ bootVectors, e.flags = 0x8F →
    e.vec ≠ chips.master.offset + line ∧ e.vec ≠ chips.slave.offset + line

theorem Wired.lines {env : Env} {idt : Nat → IdtVector} (h : Wired env idt) :
    LinesWired env ⟨.programmed 0x20 4 0xFC, .programmed 0x28 2 0xFF⟩ idt := by
  have timer := h.gate ⟨0x20, .irq0Handler, 0x8E⟩ (by simp [bootVectors])
  have keyboard := h.gate ⟨0x21, .irq1Handler, 0x8E⟩ (by simp [bootVectors])
  constructor
  · exact (by decide : ∀ line, line < 8 → (¬ (0xFC : Nat).testBit line = true ↔ line < 2))
  · exact (by decide : ∀ line, line < 8 → (0xFF : Nat).testBit line = true)
  · simpa only [BootVector.gate, Chip.programmed] using timer
  · simpa only [BootVector.gate, Chip.programmed, Nat.reduceAdd] using keyboard
  · intro line below e listed exception
    have low : e.vec < 0x20 := by
      revert listed e
      simp [bootVectors]
    simp only [Chip.programmed]
    omega

theorem footerInit_out (env : Env) (s : Machine) :
    (s.footerInit env).out = (s.ps2KeyboardInit env).out := by
  rw [Machine.footerInit, Machine.onKernel]

theorem footerInit_idt (env : Env) (s : Machine) : (s.footerInit env).idt = s.idt := by
  rw [Machine.footerInit, Machine.onKernel]
  rfl

/-- **The lines that are open after the boot have their handlers**, and no line
can be taken for an exception. -/
theorem lines_wired {power : Pics} {env : Env} (answers : Answers env power) (m : Mem)
    (rflags : Nat) (meminfo : Meminfo) (rsdp : Nat) :
    LinesWired env
      (power.after (((Machine.atStart m rflags).init env meminfo rsdp).footerInit env).out)
      (((Machine.atStart m rflags).init env meminfo rsdp).footerInit env).idt := by
  have chips := init_programs power answers meminfo rsdp (Machine.atStart m rflags)
  have footer := ps2KeyboardInit_mask power answers (by decide) chips
  rw [footerInit_out, footer, footerInit_idt]
  exact (init_wired env m rflags meminfo rsdp).lines

/-- Chips as the firmware may leave them, all lines open on the vectors from 8 on. -/
def firmwarePics : Pics where
  master := ⟨[], 8, 4, 1, 0, {0}, {1}⟩
  slave := ⟨[.icw3], 0x70, 2, 1, 0, ∅, ∅⟩

def firmwareEnv : Env where
  image := Vmm.lowRoot
  tssEntry := 0x2000
  idt := 0x3000
  isr := fun _ => 0x4000
  answer out _ := (firmwarePics.after out).master.imr

theorem firmware_answers : Answers firmwareEnv firmwarePics := fun _ => rfl

theorem keyboardInits_mask_firmware :
    firmwarePics.after (Machine.keyboardInits firmwareEnv 1
      ((Machine.atStart (fun _ => 0) 0x2).init firmwareEnv oneEntry 0)).out =
        ⟨.programmed 0x20 4 (if 1 % 2 = 1 then 0xFC else 0xFE), .programmed 0x28 2 0xFF⟩ :=
  keyboardInits_mask firmwarePics firmware_answers oneEntry 0 _ 1

theorem lines_wired_firmware :
    LinesWired firmwareEnv
      (firmwarePics.after (((Machine.atStart (fun _ => 0) 0x2).init firmwareEnv oneEntry
        0).footerInit firmwareEnv).out)
      (((Machine.atStart (fun _ => 0) 0x2).init firmwareEnv oneEntry 0).footerInit
        firmwareEnv).idt :=
  lines_wired firmware_answers (fun _ => 0) 0x2 oneEntry 0

end KessOS
