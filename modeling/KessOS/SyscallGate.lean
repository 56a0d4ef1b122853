import KessOS.Syscall

/-!
# The registers of a system call

`syscall_gate` copies the arguments into the registers of the calling
convention, calls the dispatcher and returns. It saves no register.

* `gate_reaches_iff`: the register files a system call may come back with;
* `unclobbered_iff`: what the copies alone change;
* `gate_never_preserves`: no register file is safe.
-/

namespace KessOS

inductive Gpr where
  | rax | rbx | rcx | rdx | rsi | rdi | rbp | rsp
  | r8 | r9 | r10 | r11 | r12 | r13 | r14 | r15
  deriving DecidableEq

abbrev RegFile := Gpr → UInt64

/-- The processor. `stack` holds the words pushed since it entered ring 0, the
latest first. -/
structure Cpu where
  regs : RegFile
  rip : UInt64
  cs : UInt64
  rflags : UInt64
  ss : UInt64
  stack : List UInt64

namespace Cpu

def set (c : Cpu) (r : Gpr) (v : UInt64) : Cpu :=
  { c with regs := fun q => if q = r then v else c.regs q }

def mov (c : Cpu) (dst src : Gpr) : Cpu := c.set dst (c.regs src)

def push (c : Cpu) (v : UInt64) : Cpu :=
  { c.set .rsp (c.regs .rsp - 8) with stack := v :: c.stack }

/-- `int` through an interrupt gate from ring 3, with `rsp0` in the TSS: the
processor takes the aligned stack, disables interrupts and pushes five words. -/
def interrupt (rsp0 gate : UInt64) (c : Cpu) : Cpu :=
  let entered := { c with
    regs := (c.set .rsp (rsp0 / 16 * 16)).regs
    rip := gate
    cs := 0x08
    rflags := c.rflags &&& 0xfffffffffffffdff
    ss := 0
    stack := [] }
  ((((entered.push c.ss).push (c.regs .rsp)).push c.rflags).push c.cs).push c.rip

def iretq (c : Cpu) : Option Cpu :=
  match c.stack with
  | rip :: cs :: rflags :: rsp :: ss :: stack =>
    some
      { regs := (c.set .rsp rsp).regs
        rip := rip
        cs := cs
        rflags := rflags
        ss := ss
        stack := stack }
  | _ => none

end Cpu

/-! ## The gate -/

inductive Instr where
  | mov (dst src : Gpr)
  | callSyscallDispatcher
  | iretq

def syscallGate : List Instr :=
  [.mov .rdi .rax, .mov .rsi .r14, .mov .rdx .r13, .mov .rcx .r12, .mov .r8 .r11, .mov .r9 .r10,
    .callSyscallDispatcher, .iretq]

/-- What the System V ABI makes a callee keep. -/
def calleeSaved : List Gpr := [.rbx, .rbp, .rsp, .r12, .r13, .r14, .r15]

/-- A call of `syscall_dispatcher` and its return: the handler runs on the first
six argument registers, and the registers the callee need not keep may hold anything. -/
structure Called (lfb : Framebuffer) (c : Cpu) (s : SyscallState) (c' : Cpu) (s' : SyscallState) :
    Prop where
  saved : ∀ r, r ∈ calleeSaved → c'.regs r = c.regs r
  stack : c'.stack = c.stack
  effect : s' = syscallDispatcher lfb (c.regs .rdi).toNat (c.regs .rsi).toNat (c.regs .rdx).toNat
    (c.regs .rcx).toNat (c.regs .r8).toNat (c.regs .r9).toNat s

def Instr.Step (lfb : Framebuffer) (c : Cpu) (s : SyscallState) (c' : Cpu) (s' : SyscallState) :
    Instr → Prop
  | mov dst src => c' = c.mov dst src ∧ s' = s
  | callSyscallDispatcher => Called lfb c s c' s'
  | iretq => c.iretq = some c' ∧ s' = s

def Exec (lfb : Framebuffer) : List Instr → Cpu → SyscallState → Cpu → SyscallState → Prop
  | [], c, s, c', s' => c' = c ∧ s' = s
  | i :: rest, c, s, c', s' => ∃ d t, i.Step lfb c s d t ∧ Exec lfb rest d t c' s'

/-- `int 0x80` in the user's state `c`, up to the instruction after it. -/
def SystemCall (lfb : Framebuffer) (rsp0 gate : UInt64) (c : Cpu) (s : SyscallState) (c' : Cpu)
    (s' : SyscallState) : Prop :=
  Exec lfb syscallGate (c.interrupt rsp0 gate) s c' s'

/-- Whatever the callee does, every register but `rax` comes back as it was. -/
def Preserved (lfb : Framebuffer) (rsp0 gate : UInt64) (c : Cpu) (s : SyscallState) : Prop :=
  ∀ c' s', SystemCall lfb rsp0 gate c s c' s' → ∀ r, r ≠ .rax → c'.regs r = c.regs r

/-! ## What the gate does -/

/-- The six copies. -/
def Cpu.arguments (c : Cpu) : Cpu :=
  (((((c.mov .rdi .rax).mov .rsi .r14).mov .rdx .r13).mov .rcx .r12).mov .r8 .r11).mov .r9 .r10

theorem Cpu.arguments_saved (c : Cpu) {r : Gpr} (saved : r ∈ calleeSaved) :
    c.arguments.regs r = c.regs r := by
  revert saved
  cases r <;> first | exact fun _ => rfl | exact fun saved => absurd saved (by decide)

theorem Cpu.interrupt_regs (rsp0 gate : UInt64) (c : Cpu) {r : Gpr} (other : r ≠ .rsp) :
    (c.interrupt rsp0 gate).regs r = c.regs r := by
  simp only [interrupt, push, set, if_neg other]

theorem Cpu.interrupt_stack (rsp0 gate : UInt64) (c : Cpu) :
    (c.interrupt rsp0 gate).stack = [c.rip, c.cs, c.rflags, c.regs .rsp, c.ss] := rfl

/-- The state `iretq` makes of the frame the processor pushed. -/
def Cpu.resumed (c d : Cpu) : Cpu where
  regs := (d.set .rsp (c.regs .rsp)).regs
  rip := c.rip
  cs := c.cs
  rflags := c.rflags
  ss := c.ss
  stack := []

theorem exec_mov {lfb : Framebuffer} {dst src : Gpr} {rest : List Instr} {c c' : Cpu}
    {s s' : SyscallState} : Exec lfb (.mov dst src :: rest) c s c' s' ↔
      Exec lfb rest (c.mov dst src) s c' s' := by
  constructor
  · rintro ⟨_, _, ⟨rfl, rfl⟩, rest⟩
    exact rest
  · intro rest
    exact ⟨_, _, ⟨rfl, rfl⟩, rest⟩

theorem exec_dispatch {lfb : Framebuffer} {c c' : Cpu} {s s' : SyscallState} :
    Exec lfb [.callSyscallDispatcher, .iretq] c s c' s' ↔
      ∃ d, Called lfb c s d s' ∧ d.iretq = some c' := by
  constructor
  · rintro ⟨d, _, called, _, _, ⟨back, rfl⟩, rfl, rfl⟩
    exact ⟨d, called, back⟩
  · rintro ⟨d, called, back⟩
    exact ⟨d, s', called, c', s', ⟨back, rfl⟩, rfl, rfl⟩

/-- **A system call** is the copies, the dispatcher and the return. -/
theorem systemCall_iff {lfb : Framebuffer} {rsp0 gate : UInt64} {c c' : Cpu}
    {s s' : SyscallState} : SystemCall lfb rsp0 gate c s c' s' ↔
      ∃ d, Called lfb (c.interrupt rsp0 gate).arguments s d s' ∧ c' = c.resumed d := by
  rw [SystemCall, syscallGate]
  simp only [exec_mov, exec_dispatch]
  refine exists_congr fun d => and_congr_right fun called => ?_
  have pushed : d.stack = [c.rip, c.cs, c.rflags, c.regs .rsp, c.ss] :=
    called.stack.trans (c.interrupt_stack rsp0 gate)
  rw [Cpu.iretq, pushed, Option.some_inj]
  exact eq_comm

/-- The dispatcher gets the user's registers, in the order it declares. -/
theorem systemCall_effect {lfb : Framebuffer} {rsp0 gate : UInt64} {c c' : Cpu}
    {s s' : SyscallState} (call : SystemCall lfb rsp0 gate c s c' s') :
    s' = syscallDispatcher lfb (c.regs .rax).toNat (c.regs .r14).toNat (c.regs .r13).toNat
      (c.regs .r12).toNat (c.regs .r11).toNat (c.regs .r10).toNat s := by
  obtain ⟨d, called, _⟩ := systemCall_iff.mp call
  exact called.effect

theorem systemCall_saved {lfb : Framebuffer} {rsp0 gate : UInt64} {c c' : Cpu}
    {s s' : SyscallState} (call : SystemCall lfb rsp0 gate c s c' s') {r : Gpr}
    (saved : r ∈ calleeSaved) : c'.regs r = c.regs r := by
  obtain ⟨d, called, rfl⟩ := systemCall_iff.mp call
  by_cases stack : r = .rsp
  · exact if_pos stack |>.trans (congrArg c.regs stack.symm)
  · refine (if_neg stack).trans ?_
    rw [called.saved r saved, Cpu.arguments_saved _ saved, Cpu.interrupt_regs _ _ _ stack]

/-- **What comes back**: any register file that agrees on the callee-saved registers. -/
theorem gate_reaches_iff (lfb : Framebuffer) (rsp0 gate : UInt64) (c : Cpu) (s : SyscallState)
    (g : RegFile) : (∃ c' s', SystemCall lfb rsp0 gate c s c' s' ∧ c'.regs = g) ↔
      ∀ r, r ∈ calleeSaved → g r = c.regs r := by
  constructor
  · rintro ⟨c', s', call, rfl⟩ r saved
    exact systemCall_saved call saved
  · intro agree
    let entry := (c.interrupt rsp0 gate).arguments
    let d : Cpu := { entry with regs := g }.set .rsp (entry.regs .rsp)
    have called : Called lfb entry s d (syscallDispatcher lfb (entry.regs .rdi).toNat
        (entry.regs .rsi).toNat (entry.regs .rdx).toNat (entry.regs .rcx).toNat
        (entry.regs .r8).toNat (entry.regs .r9).toNat s) := by
      refine ⟨fun r saved => ?_, rfl, rfl⟩
      by_cases stack : r = .rsp
      · subst stack
        rfl
      · refine (if_neg stack).trans ((agree r saved).trans ?_)
        rw [Cpu.arguments_saved _ saved, Cpu.interrupt_regs _ _ _ stack]
    refine ⟨c.resumed d, _, systemCall_iff.mpr ⟨d, called, rfl⟩, ?_⟩
    funext r
    by_cases stack : r = .rsp
    · subst stack
      exact (agree .rsp (by decide)).symm
    · exact (if_neg stack).trans (if_neg stack)

/-- Even a dispatcher that changes no register leaves the copies behind. -/
theorem unclobbered_iff (c : Cpu) :
    (∀ r, r ≠ .rax → c.arguments.regs r = c.regs r) ↔
      c.regs .rdi = c.regs .rax ∧ c.regs .rsi = c.regs .r14 ∧ c.regs .rdx = c.regs .r13 ∧
        c.regs .rcx = c.regs .r12 ∧ c.regs .r8 = c.regs .r11 ∧ c.regs .r9 = c.regs .r10 := by
  constructor
  · intro same
    have rdi := same .rdi (by decide)
    have rsi := same .rsi (by decide)
    have rdx := same .rdx (by decide)
    have rcx := same .rcx (by decide)
    have r8 := same .r8 (by decide)
    have r9 := same .r9 (by decide)
    exact ⟨rdi.symm, rsi.symm, rdx.symm, rcx.symm, r8.symm, r9.symm⟩
  · rintro ⟨rdi, rsi, rdx, rcx, r8, r9⟩ r _
    cases r with
    | rdi => exact rdi.symm
    | rsi => exact rsi.symm
    | rdx => exact rdx.symm
    | rcx => exact rcx.symm
    | r8 => exact r8.symm
    | r9 => exact r9.symm
    | _ => rfl

/-- A call that comes back with another value in a register that is not saved. -/
theorem not_preserved_of_clobber {lfb : Framebuffer} {rsp0 gate : UInt64} {c : Cpu}
    {s : SyscallState} {r : Gpr} (free : r ∉ calleeSaved) (result : r ≠ .rax) {v : UInt64}
    (other : v ≠ c.regs r) : ¬ Preserved lfb rsp0 gate c s := by
  intro preserved
  have agree (q : Gpr) (saved : q ∈ calleeSaved) : (c.set r v).regs q = c.regs q := by
    refine if_neg ?_
    rintro rfl
    exact free saved
  obtain ⟨c', s', call, back⟩ := (gate_reaches_iff lfb rsp0 gate c s _).mpr agree
  have kept := preserved c' s' call r result
  rw [back] at kept
  exact other ((if_pos rfl).symm.trans kept)

/-- **No register file is safe** from a callee that keeps the calling convention. -/
theorem gate_never_preserves (lfb : Framebuffer) (rsp0 gate : UInt64) (c : Cpu)
    (s : SyscallState) : ¬ Preserved lfb rsp0 gate c s := by
  have other : c.regs .rcx + 1 ≠ c.regs .rcx := by
    intro same
    have next := congrArg UInt64.toNat same
    rw [UInt64.toNat_add, show (1 : UInt64).toNat = 1 from rfl] at next
    have := (c.regs .rcx).toNat_lt
    omega
  exact not_preserved_of_clobber (by decide) (by decide) other

/-- The first system call of `ui_start`, with 5 in `rdi`: even a dispatcher that
changes no register comes back with the copy of `rax` in it. -/
theorem hello_loses_rdi : ¬ ∀ (lfb : Framebuffer) (rsp0 gate : UInt64) (c : Cpu)
    (s : SyscallState), Preserved lfb rsp0 gate c s := by
  intro all
  have preserved := all vga 0x200000 0x100000
    ⟨fun r => if r = .rax then 1 else if r = .rdi then 5 else 0, 0x400000, 0x1b, 0x202, 0x23, []⟩
    ⟨Machine.atStart (fun _ => 0) 0x2, ⟨0, 0, 0, 0, 0⟩, []⟩
  have other : (1 : UInt64) ≠ 5 := by decide
  exact not_preserved_of_clobber (r := .rdi) (by decide) (by decide) other preserved

end KessOS
