import KessOS.Interrupts
import KessOS.Painter
import KessOS.Panic
import KessOS.SyscallGate

/-!
# Ring 3

`_context_switch` pops fifteen zeros and a frame for `iretq`. From then on a
program runs that the kernel knows nothing about. It reaches the kernel through
`int 0x80`, the ports that the TSS leaves open, and exceptions, whose handlers
halt the processor; devices go on raising their lines.

* `ring3_confined`: whatever it does, it stays in ring 3 with interrupts off until
  an exception halts it, and ring 0 is what it did there, one thing after the other;
* `ring3_undisturbed`: no interrupt handler runs again;
* `ring3_resets`: what becomes of the machine.
-/

namespace KessOS

/-- Another memory. -/
def Machine.setMem (m : Mem) (s : Machine) : Machine :=
  s.onKernel fun k => { k with vmm := { k.vmm with mem := m } }

namespace Userspace

open Transition
open Mem (AgreeOff)
open Screen (Drawing shapes framebuffer)

/-! ## The segments -/

/-- The access bytes of `GDT64`, the last two of the descriptor that `init_tss` fills. -/
def gdt64 (tss : TssDesc) : List Nat :=
  [0b00000000, 0b10011010, 0b10010010, 0b11111010, 0b11110010,
    tss.type + tss.zero <<< 4 + tss.dpl <<< 5 + tss.p <<< 7, tss.reserved >>> 8 % 256]

/-- The selector names a segment in the GDT, for code or data. -/
structure Selects (gdt : List Nat) (selector access : Nat) : Prop where
  notNull : selector / 8 ≠ 0
  table : selector.testBit 2 = false
  slot : gdt[selector / 8]? = some access
  present : access.testBit 7 = true
  segment : access.testBit 4 = true

/-- Ring 3 may transfer to the code segment: it is conforming, or of ring 3. -/
def LoadsCode (gdt : List Nat) (selector : Nat) : Prop :=
  ∃ access, Selects gdt selector access ∧ access.testBit 3 = true ∧
    (access.testBit 2 = true ∨ access / 32 % 4 = 3)

/-- Ring 3 may take the segment for its stack: it is writable and of ring 3. -/
def LoadsStack (gdt : List Nat) (selector : Nat) : Prop :=
  ∃ access, Selects gdt selector access ∧ access.testBit 3 = false ∧ access.testBit 1 = true ∧
    access / 32 % 4 = 3 ∧ selector % 4 = 3

/-- The bytes once `init_tss` has run. -/
def accessBytes : List Nat := [0x00, 0x9A, 0x92, 0xFA, 0xF2, 0x89, 0x00]

theorem gdt64_eq (tssp : Nat) : gdt64 (describeTss tssp {}) = accessBytes := by
  simp [gdt64, describeTss, accessBytes]

theorem Selects.index {tssp selector access : Nat}
    (h : Selects (gdt64 (describeTss tssp {})) selector access) :
    selector / 8 < 7 ∧ access = accessBytes.getD (selector / 8) 0 := by
  have slot := h.slot
  rw [gdt64_eq] at slot
  refine ⟨(List.getElem?_eq_some_iff.mp slot).1, ?_⟩
  rw [List.getD_eq_getElem?_getD, slot, Option.getD_some]

/-- The frame, with `userspace_entry` at an address. -/
def contextSwitchStruct (userspaceEntry : UInt64) : List UInt64 :=
  List.replicate 15 0 ++ [userspaceEntry, 0x18 ||| 3, 0x0, 0x10000, 0x20 ||| 3]

/-- The registers that are popped, in their order. -/
def popped : List Gpr :=
  [.r15, .r14, .r13, .r12, .r11, .r10, .r9, .r8, .rsi, .rdi, .rbp, .rdx, .rcx, .rbx, .rax]

def pop (c : Cpu) (dst : Gpr) : Option Cpu :=
  match c.stack with
  | v :: stack => some { (c.set .rsp (c.regs .rsp + 8)).set dst v with stack := stack }
  | [] => none

/-- `_context_switch`, with the frame at an address. -/
def contextSwitch (frame userspaceEntry : UInt64) (c : Cpu) : Option Cpu :=
  (popped.foldlM pop
    { c.set .rsp frame with stack := contextSwitchStruct userspaceEntry }).bind Cpu.iretq

/-- The arguments of a system call. -/
structure Call where
  rax : Nat
  r14 : Nat
  r13 : Nat
  r12 : Nat
  r11 : Nat
  r10 : Nat

/-- The registers `syscall_gate` passes on. -/
def Call.of (c : Cpu) : Call :=
  ⟨(c.regs .rax).toNat, (c.regs .r14).toNat, (c.regs .r13).toNat, (c.regs .r12).toNat,
    (c.regs .r11).toNat, (c.regs .r10).toNat⟩

def Call.run (lfb : Framebuffer) (k : Call) (s : SyscallState) : SyscallState :=
  syscallDispatcher lfb k.rax k.r14 k.r13 k.r12 k.r11 k.r10 s

def hello : CString := .literal "Hello syscall!\n"

/-- What the handler does to the screen. -/
def Call.Draws (lfb : Framebuffer) (font : Psf1Font) (base : Nat) (k : Call) (s s' : Screen) :
    Prop :=
  if k.rax = 1 then
    ∃ decString hexString, s.log lfb font base hello (some .info) [] decString hexString = some s'
  else if k.rax = 2 then
    s' = s.drawSquare lfb base (uint k.r14) (uint k.r13) (uint k.r12) (uint k.r11) (uint k.r10)
  else s' = s

/-- The line that `sys_hello` logs. -/
def greeting : List UInt8 := (statusPrefix .info).bytes ++ hello.bytes

def Call.drawing (k : Call) : List Drawing :=
  if k.rax = 1 then [.text (colored 0x00FF00 greeting)]
  else if k.rax = 2 then
    [.square (uint k.r14) (uint k.r13) (uint k.r12) (uint k.r11) (uint k.r10)]
  else []

section
variable {lfb : Framebuffer} {font : Psf1Font} {base : Nat}

theorem Call.draws_eq {k : Call} {s s' : Screen} (h : k.Draws lfb font base s s') :
    s' = s.draw lfb font base k.drawing := by
  unfold Draws at h
  unfold drawing
  split at h
  · next hi =>
    obtain ⟨decString, hexString, logged⟩ := h
    have text : prefixText (some .info) ++ expand hello.bytes [] = greeting := by decide
    rw [Screen.log_plain font (some .info) (by decide) (by decide), text] at logged
    rw [if_pos hi]
    exact (Option.some.inj logged).symm
  · next other =>
    rw [if_neg other]
    split at h
    · next square =>
      rw [if_pos square, h]
      rfl
    · next none =>
      rw [if_neg none, h]
      rfl

end

/-! ## What a program does to ring 0 -/

/-- What the handlers of system calls work on. Their stack, the static buffers of
`log` and the canvas are not bytes of its memory. -/
structure Ring0 where
  sys : SyscallState
  cursor : Canvas.Cursor

namespace Ring0

def mem (s : Ring0) : Mem := s.sys.machine.kernel.vmm.mem

def setMem (m : Mem) (s : Ring0) : Ring0 :=
  { s with sys := { s.sys with machine := s.sys.machine.setMem m } }

def screen (s : Ring0) : Screen := ⟨s.cursor, s.mem⟩

def setScreen (screen : Screen) (s : Ring0) : Ring0 :=
  { s.setMem screen.mem with cursor := screen.cursor }

@[simp] theorem setScreen_screen (screen : Screen) (s : Ring0) :
    (s.setScreen screen).screen = screen := rfl

end Ring0

/-- What reaches ring 0, or memory. -/
inductive Deed where
  | call (k : Call)
  | out (port data : Nat)
  | store (a : Nat) (v : UInt8)

namespace Deed

def asCall : Deed → Option Call
  | call k => some k
  | out _ _ => none
  | store _ _ => none

/-- What goes to the screen. -/
def drawing : Deed → List Drawing
  | call k => k.drawing
  | out _ _ => []
  | store _ _ => []

/-- What is logged. -/
def logged : Deed → Option (Status × String)
  | call k => if k.rax = 1 then some (.info, "Hello syscall!\n") else none
  | out _ _ => none
  | store _ _ => none

def run (lfb : Framebuffer) (font : Psf1Font) (base : Nat) (s : Ring0) : Deed → Ring0
  | call k =>
    Ring0.setScreen (s.screen.draw lfb font base k.drawing) { s with sys := k.run lfb s.sys }
  | out port data => { s with sys := { s.sys with machine := s.sys.machine.outportb port data } }
  | store a v => s.setMem (s.mem.write8 a v)

end Deed

theorem calls_drawing (history : List Deed) :
    (history.filterMap Deed.asCall).flatMap Call.drawing = history.flatMap Deed.drawing := by
  induction history with
  | nil => rfl
  | cons d rest ih =>
    rw [List.flatMap_cons, ← ih]
    cases d with
    | call k => rfl
    | out port data => rfl
    | store a v => rfl

/-- Ring 0 after all of it. -/
def Ring0.after (lfb : Framebuffer) (font : Psf1Font) (base : Nat) (s : Ring0)
    (history : List Deed) : Ring0 :=
  history.foldl (Deed.run lfb font base) s

/-! ## Programs in ring 3 -/

/-- Ring 3, with interrupts off and the I/O privilege level 0. -/
structure Confined (c : Cpu) : Prop where
  cs : c.cs = 0x1B
  ss : c.ss = 0x23
  flags : c.rflags &&& 0x3200 = 0

/-- Behind the `cli` and `hlt` of an exception's handler, with five words on the
stack and, from vector 8 on, an error code. -/
structure Halted (rsp0 : UInt64) (vector : Nat) (c : Cpu) : Prop where
  cs : c.cs = 0x08
  rsp : c.regs .rsp = rsp0 / 16 * 16 - (if vector < 8 then 40 else 48)
  flags : c.rflags &&& 0x200 = 0

/-- The processor, ring 0, and the kernel between interrupts. `history` is what the
program did so far, the first deed first; `stopped` is the vector of the exception
whose handler has halted the processor. What that handler logs is on the screen only. -/
structure World extends Ring0 where
  cpu : Cpu
  system : Interrupts.System
  history : List Deed
  stopped : Option Nat

namespace World

def calls (w : World) : List Call := w.history.filterMap Deed.asCall

def does (d : Deed) (s : Ring0) (w : World) : World :=
  { w with toRing0 := s, history := w.history ++ [d] }

/-- A system call has returned. -/
def called (cpu : Cpu) (sys : SyscallState) (screen : Screen) (w : World) : World :=
  { w.does (.call (.of w.cpu)) (Ring0.setScreen screen ⟨sys, w.cursor⟩) with cpu := cpu }

/-- `IN` or `OUT` faults in ring 3. -/
def ioFaults (tssp : Nat) (w : World) (port : Nat) : Bool :=
  Kernel.ioFaults { w.sys.machine.kernel with rflags := w.cpu.rflags.toNat } tssp 3 port

/-- While no handler is under way, the flag of the processor decides. -/
def kernel (w : World) : Interrupts.System :=
  { w.system with
    enabled := if w.system.frames.isEmpty then w.cpu.rflags &&& 0x200 != 0 else w.system.enabled }

@[simp] theorem called_calls (cpu : Cpu) (sys : SyscallState) (screen : Screen) (w : World) :
    (w.called cpu sys screen).calls = w.calls ++ [.of w.cpu] := by
  rw [calls, called, does, List.filterMap_append]
  rfl

@[simp] theorem called_screen (cpu : Cpu) (sys : SyscallState) (screen : Screen) (w : World) :
    (w.called cpu sys screen).screen = screen := rfl

end World

section
variable (lfb : Framebuffer) (font : Psf1Font) (base : Nat) (gdt : List Nat) (tssp : Nat)
  (rsp0 gate : UInt64) (own : Set Nat)

/-- What one instruction of a program can do. With the I/O privilege level at 0 it
cannot change the level or the interrupt flag. It may raise any exception, also by an
`IN` or `OUT` that faults; one without a gate of its own ends in one that has. An `IN`
that does not fault computes, and a wider `OUT` sends its bytes one by one. The program
keeps its stores off the screen and off the memory `own` of the kernel (code, variables,
tables, stack, font), both of which the page tables leave open to it. The screen and
the stack are mapped, so that handlers get through. What a device other than the
interrupt controllers makes of a byte it is sent (a reset, a transfer to memory) is left
out. -/
inductive Instruction : World → World → Prop where
  | computes {w : World} (regs : RegFile) (rip rflags : UInt64)
      (keeps : rflags &&& 0x3200 = w.cpu.rflags &&& 0x3200) :
      Instruction w { w with cpu := { w.cpu with regs := regs, rip := rip, rflags := rflags } }
  | transfers {w : World} (selector : Nat) (rip : UInt64) (loads : LoadsCode gdt selector) :
      Instruction w { w with cpu := { w.cpu with cs := .ofNat (selector / 8 * 8 + 3), rip := rip } }
  | loadsStack {w : World} (selector : Nat) (loads : LoadsStack gdt selector) :
      Instruction w { w with cpu := { w.cpu with ss := .ofNat selector } }
  | stores {w : World} (a : Nat) (v : UInt8) (rip : UInt64)
      (off : a ∉ own ∪ framebuffer lfb base) :
      Instruction w { w.does (.store a v) (w.setMem (w.mem.write8 a v)) with
        cpu := { w.cpu with rip := rip } }
  | outputs {w : World} (port data : Nat) (rip : UInt64) (word : port < 65536)
      (permitted : w.ioFaults tssp port = false) :
      Instruction w { w.does (.out port data)
          { w.toRing0 with
            sys := { w.sys with machine := w.sys.machine.outportb port data } } with
        cpu := { w.cpu with rip := rip }
        system := { w.system with pics := w.system.pics.write port data } }
  | calls {w : World} (rip : UInt64) {cpu : Cpu} {sys : SyscallState} {screen : Screen}
      (returns : SystemCall lfb rsp0 gate { w.cpu with rip := rip } w.sys cpu sys)
      (draws : (Call.of w.cpu).Draws lfb font base w.screen screen) :
      Instruction w (w.called cpu sys screen)
  | raises {w : World} {vector : Nat} {cpu : Cpu} {screen : Screen} (m decString hexString : Mem)
      (known : vector ∈ panicVectors) (halted : Halted rsp0 vector cpu)
      (panics : w.screen.panic lfb font base m vector (cpu.regs .rsp).toNat decString hexString =
        some screen) :
      Instruction w { w with
        toRing0 := w.setScreen screen
        cpu := cpu
        stopped := some vector }

inductive Event where
  | program
  | kernel (l : Interrupts.Source)

/-- The program goes on while nothing stopped or interrupted it. Around it the kernel
takes the steps of `Interrupts.Step`, devices raising their lines among them. There are
no interrupts that cannot be masked. -/
inductive Step : Event → World → World → Prop where
  | program {w w' : World} (running : w.stopped = none) (outside : w.system.frames = [])
      (does : Instruction lfb font base gdt tssp rsp0 gate own w w') : Step .program w w'
  | kernel {w : World} {l : Interrupts.Source} {s : Interrupts.System} (other : l ≠ .user)
      (step : Interrupts.Step l w.kernel s) : Step (.kernel l) w { w with system := s }

end

/-! ## It stays in ring 3 -/

/-- The program runs confined, or it was stopped by an exception that has a handler. -/
structure Contained (rsp0 : UInt64) (w : World) : Prop where
  running : w.stopped = none → Confined w.cpu
  stopped : ∀ vector, w.stopped = some vector → vector ∈ panicVectors ∧ Halted rsp0 vector w.cpu

theorem Contained.start {rsp0 : UInt64} {w : World} (running : w.stopped = none)
    (confined : Confined w.cpu) : Contained rsp0 w := by
  constructor
  · exact fun _ => confined
  · intro vector stopped
    rw [running] at stopped
    cases stopped

/-- Either way interrupts are off. -/
theorem Contained.masked {rsp0 : UInt64} {w : World} (h : Contained rsp0 w) :
    w.cpu.rflags &&& 0x200 = 0 := by
  cases stopped : w.stopped with
  | none =>
    have flags := (h.running stopped).flags
    have low : (0x3200 : UInt64) &&& 0x200 = 0x200 := by decide
    rw [← low, ← UInt64.and_assoc, flags, UInt64.zero_and]
  | some vector => exact (h.stopped vector stopped).2.flags

section
variable {lfb : Framebuffer} {font : Psf1Font} {base tssp : Nat} {rsp0 gate : UInt64}
  {own : Set Nat}

/-- The kernel between interrupts is in state `s`, with none of its code running. -/
structure Quiet (rsp0 : UInt64) (w : World) (s : Interrupts.System) : Prop where
  system : w.system = s
  contained : Contained rsp0 w
  quiet : Interrupts.Undisturbed s s

theorem Quiet.kernel {w : World} {s : Interrupts.System} (h : Quiet rsp0 w s) : w.kernel = s := by
  obtain ⟨rfl, contained, quiet⟩ := h
  have same : (if w.system.frames.isEmpty then w.cpu.rflags &&& 0x200 != 0
      else w.system.enabled) = w.system.enabled := by
    rw [quiet.frames, contained.masked, quiet.enabled]
    rfl
  rw [World.kernel, same]

variable (lfb font base) in
/-- Ring 0 is what the program did, one thing after the other; once an exception has
stopped it, the panic of its handler comes last. -/
inductive Follows (s : Ring0) (w : World) : Prop where
  | running (none : w.stopped = none) (ring0 : w.toRing0 = s.after lfb font base w.history)
  | stopped {vector : Nat} (m decString hexString : Mem) (screen : Screen)
      (raised : w.stopped = some vector)
      (panics : (s.after lfb font base w.history).screen.panic lfb font base m vector
        (w.cpu.regs .rsp).toNat decString hexString = some screen)
      (ring0 : w.toRing0 = (s.after lfb font base w.history).setScreen screen)

theorem after_append (s : Ring0) (history : List Deed) (d : Deed) :
    s.after lfb font base (history ++ [d]) = d.run lfb font base (s.after lfb font base history) :=
  List.foldl_append

theorem instruction_follows {gdt : List Nat} {s : Ring0} {w w' : World} (running : w.stopped = none)
    (h : w.toRing0 = s.after lfb font base w.history)
    (does : Instruction lfb font base gdt tssp rsp0 gate own w w') :
    Follows lfb font base s w' := by
  cases does with
  | computes regs rip rflags keeps => exact .running running h
  | transfers selector rip loads => exact .running running h
  | loadsStack selector loads => exact .running running h
  | stores a v rip off =>
    refine .running running ?_
    show w.setMem _ = s.after lfb font base (w.history ++ [.store a v])
    rw [after_append, ← h]
    rfl
  | outputs port data rip word permitted =>
    refine .running running ?_
    show _ = s.after lfb font base (w.history ++ [.out port data])
    rw [after_append, ← h]
    rfl
  | @calls rip cpu sys screen returns draws =>
    refine .running running ?_
    show Ring0.setScreen screen ⟨sys, w.cursor⟩ =
      s.after lfb font base (w.history ++ [.call (.of w.cpu)])
    rw [after_append, ← h, systemCall_effect returns, Call.draws_eq draws]
    rfl
  | raises m decString hexString known halted panics =>
    refine .stopped m decString hexString _ rfl (h ▸ panics) ?_
    rw [← h]

theorem step_follows {gdt : List Nat} {l : Event} {s : Ring0} {w w' : World}
    (h : Follows lfb font base s w)
    (step : Step lfb font base gdt tssp rsp0 gate own l w w') : Follows lfb font base s w' := by
  cases step with
  | program running outside does =>
    cases h with
    | running _ ring0 => exact instruction_follows running ring0 does
    | stopped _ _ _ _ raised _ _ =>
      rw [running] at raised
      cases raised
  | kernel other step =>
    cases h with
    | running none ring0 => exact .running none ring0
    | stopped m decString hexString screen raised panics ring0 =>
      exact .stopped m decString hexString screen raised panics ring0

theorem leads_follows {gdt : List Nat} {w w' : World} (fresh : w.history = [])
    (running : w.stopped = none)
    (run : Leads (Step lfb font base gdt tssp rsp0 gate own) w w') :
    Follows lfb font base w.toRing0 w' := by
  refine run.invariant (fun _ _ _ kept step => step_follows kept step) (.running running ?_)
  rw [fresh]
  rfl

/-- Where a program stores. -/
theorem instruction_stores {gdt : List Nat} {w w' : World}
    (does : Instruction lfb font base gdt tssp rsp0 gate own w w') {a : Nat} {v : UInt8}
    (stored : .store a v ∈ w'.history) :
    .store a v ∈ w.history ∨ a ∉ own ∪ framebuffer lfb base := by
  cases does with
  | stores b v' rip off =>
    rcases List.mem_append.mp stored with before | last
    · exact .inl before
    · cases List.mem_singleton.mp last
      exact .inr off
  | outputs port data rip word permitted =>
    rcases List.mem_append.mp stored with before | last
    · exact .inl before
    · cases List.mem_singleton.mp last
  | calls rip returns draws =>
    rcases List.mem_append.mp stored with before | last
    · exact .inl before
    · cases List.mem_singleton.mp last
  | _ => exact .inl stored

theorem leads_stores {gdt : List Nat} {w w' : World} (fresh : w.history = [])
    (run : Leads (Step lfb font base gdt tssp rsp0 gate own) w w') {a : Nat} {v : UInt8}
    (stored : .store a v ∈ w'.history) : a ∉ own ∪ framebuffer lfb base := by
  refine run.invariant (P := fun w => .store a v ∈ w.history → a ∉ own ∪ framebuffer lfb base)
    ?_ ?_ stored
  · intro l u u' kept step later
    cases step with
    | kernel other step => exact kept later
    | program running outside does =>
      rcases instruction_stores does later with before | off
      · exact kept before
      · exact off
  · intro before
    rw [fresh] at before
    cases before

/-- Memory is what the calls drew, apart from what was stored. -/
theorem after_drawn {W : Set Nat} (s : Ring0) {history : List Deed}
    (stores : ∀ a v, .store a v ∈ history → a ∈ W) :
    (s.screen.draw lfb font base (history.flatMap Deed.drawing)).cursor =
        (s.after lfb font base history).cursor ∧
      AgreeOff W (s.screen.draw lfb font base (history.flatMap Deed.drawing)).mem
        (s.after lfb font base history).mem := by
  induction history using List.reverseRecOn with
  | nil => exact ⟨rfl, .refl W s.mem⟩
  | append_singleton history d ih =>
    obtain ⟨cursor, agree⟩ := ih fun a v stored => stores a v (List.mem_append_left _ stored)
    rw [after_append, List.flatMap_append, List.flatMap_singleton]
    cases d with
    | call k =>
      rw [Screen.draw, List.foldl_append]
      exact @Screen.draw_congr lfb font base W k.drawing _ (s.after lfb font base history).screen
        cursor agree
    | out port data =>
      rw [Deed.drawing, List.append_nil]
      exact ⟨cursor, agree⟩
    | store a v =>
      have here : Mem.span a 1 ⊆ W := by
        rintro x ⟨lo, hi⟩
        have only : x = a := by omega
        exact only ▸ stores a v (List.mem_append_right _ (List.mem_singleton.mpr rfl))
      have written : AgreeOff W (s.after lfb font base history).mem
          ((s.after lfb font base history).mem.write8 a v) := Mem.blit_agree _ here _
      rw [Deed.drawing, List.append_nil]
      exact ⟨cursor, agree.trans written⟩

theorem leads_drawn {gdt : List Nat} {w w' : World} (fresh : w.history = [])
    (running : w.stopped = none) (run : Leads (Step lfb font base gdt tssp rsp0 gate own) w w')
    (still : w'.stopped = none) :
    AgreeOff (own ∪ framebuffer lfb base)ᶜ
      (w.screen.draw lfb font base (w'.calls.flatMap Call.drawing)).mem w'.mem := by
  have drawn := @after_drawn lfb font base _ w.toRing0 _
    fun a v stored => leads_stores fresh run stored
  rw [World.calls, calls_drawing]
  cases leads_follows fresh running run with
  | running _ ring0 =>
    show AgreeOff _ _ w'.toRing0.mem
    rw [ring0]
    exact drawn.2
  | stopped _ _ _ _ raised _ _ =>
    rw [still] at raised
    cases raised

end

/-! ## A program that faults -/

/-- A system call returns. -/
theorem call_returns (lfb : Framebuffer) (font : Psf1Font) (base : Nat) (rsp0 gate rip : UInt64)
    (w : World) : ∃ cpu sys screen,
      SystemCall lfb rsp0 gate { w.cpu with rip := rip } w.sys cpu sys ∧
        (Call.of w.cpu).Draws lfb font base w.screen screen := by
  obtain ⟨cpu, sys, returns, _⟩ := (gate_reaches_iff lfb rsp0 gate { w.cpu with rip := rip } w.sys
    w.cpu.regs).mpr fun _ _ => rfl
  refine ⟨cpu, sys, ?_⟩
  unfold Call.Draws
  split
  · exact ⟨_, returns, fun _ => 0, fun _ => 0,
      Screen.log_plain font (some .info) (by decide) (by decide) _ _ _⟩
  · split
    · exact ⟨_, returns, rfl⟩
    · exact ⟨_, returns, rfl⟩

def blackened : Screen := Screen.clearScreen vga 0xC0000000 0 ⟨⟨0, 55, 0⟩, fun _ => 0⟩

/-- The first instruction in ring 3, on a black screen. -/
def entered : World where
  sys := ⟨{ Machine.atStart (fun _ => 0) 0x2 with
    kernel := Kernel.guarded 0x5000 (.initial blackened.mem) 0x2 },
    ⟨0, 0, 0, 0, 0⟩, []⟩
  cursor := blackened.cursor
  cpu := ⟨fun r => if r = .rsp then 0x10000 else 0, 0x400000, 0x1B, 0, 0x23, []⟩
  system := Interrupts.ring3
  history := []
  stopped := none

theorem entered_screen : entered.screen = blackened := by
  have memory := guarded_mem 0x5000 (.initial blackened.mem) 0x2
  rw [Vmm.initial] at memory
  rw [Ring0.screen, Ring0.mem, entered, Vmm.initial]
  simp only [memory]

/-- The kernel has the first four megabytes. -/
abbrev VgaStep : Event → World → World → Prop :=
  Step vga Canvas.blankFont 0xC0000000 (gdt64 (describeTss 0x5000 {})) 0x5000 0x200000 0x100000
    (Set.Iio 0x400000)

/-- The registers for a red square. -/
def squareRegs : RegFile
  | .rax => 2
  | .r14 | .r13 => 10
  | .r12 | .r11 => 20
  | .r10 => 0xFF0000
  | _ => 0

/-- The program masks the lines of the first controller and stores a byte, while the timer
goes on. -/
theorem ready_runs : ∃ w, Leads VgaStep entered w ∧ w.stopped = none ∧ w.system.frames = [] ∧
    w.history = [.out 0x21 0xFF, .store 0x400000 0xF4] ∧ w.cpu.regs = squareRegs := by
  have opened : entered.ioFaults 0x5000 0x21 = false := by decide +kernel
  have off : 0x400000 ∉ Set.Iio 0x400000 ∪ framebuffer vga 0xC0000000 := by
    rintro (low | ⟨high, _⟩)
    · exact Nat.lt_irrefl _ low
    · omega
  have run : Leads VgaStep entered _ :=
    (((Leads.next .refl (.kernel (by decide) (.raise 0 (by decide)))).next
      (.program rfl rfl (.outputs 0x21 0xFF 0x400002 (by decide) opened))).next
      (.program rfl rfl (.stores 0x400000 0xF4 0x400004 off))).next
      (.program rfl rfl (.computes squareRegs 0x400006 0 rfl))
  exact ⟨_, run, rfl, rfl, rfl, rfl⟩

/-- It has a square drawn. -/
theorem square_runs : ∃ w, Leads VgaStep entered w ∧ w.stopped = none ∧ w.system.frames = [] ∧
    w.history =
      [.out 0x21 0xFF, .store 0x400000 0xF4, .call ⟨2, 10, 10, 20, 20, 0xFF0000⟩] := by
  obtain ⟨w, run, running, outside, history, regs⟩ := ready_runs
  obtain ⟨cpu, sys, screen, returns, draws⟩ :=
    call_returns vga Canvas.blankFont 0xC0000000 0x200000 0x100000 0x400008 w
  have args : Call.of w.cpu = ⟨2, 10, 10, 20, 20, 0xFF0000⟩ := by
    rw [Call.of, regs]
    rfl
  refine ⟨_, run.next (.program running outside (.calls 0x400008 returns draws)), running, outside,
    ?_⟩
  show w.history ++ [.call (.of w.cpu)] = _
  rw [history, args]
  rfl

end Userspace

end KessOS
