import KessOS.FrameBuffer
import KessOS.KernelInit

/-!
# System calls

`syscall_dispatcher` stores the registers and calls the handler `rax` selects.
`dispatch_onScreen_iff` is what ring 3 can make the drawing call write.
-/

namespace KessOS

def syscallCount : Nat := 3

structure SyscallRegArgs where
  r14 : Nat
  r13 : Nat
  r12 : Nat
  r11 : Nat
  r10 : Nat

/-- The machine, the dispatcher's static `regs`, and the pixels written. -/
structure SyscallState where
  machine : Machine
  regs : SyscallRegArgs
  pixels : List (Int × Nat)

def sysReboot (s : SyscallState) : SyscallState :=
  { s with machine := s.machine.outportb 0x64 0xFE }

def sysHello (s : SyscallState) : SyscallState :=
  { s with machine := s.machine.log .info "Hello syscall!\n" }

/-- Conversion to `unsigned int`. -/
def uint (r : Nat) : Nat := r % 4294967296

def sysDrawSquare (lfb : Framebuffer) (s : SyscallState) : SyscallState :=
  { s with
    pixels := drawSquare lfb (uint s.regs.r14) (uint s.regs.r13) (uint s.regs.r12)
      (uint s.regs.r11) (uint s.regs.r10) s.pixels }

def syscallTable (lfb : Framebuffer) : List (SyscallState → SyscallState) :=
  [sysReboot, sysHello, sysDrawSquare lfb]

def syscallDispatcher (lfb : Framebuffer) (rax r14 r13 r12 r11 r10 : Nat) (s : SyscallState) :
    SyscallState :=
  if rax ≥ syscallCount ∨ rax < 0 then s
  else
    let syscall := (syscallTable lfb).getD rax id
    syscall { s with regs := ⟨r14, r13, r12, r11, r10⟩ }

/-- Only call 2 draws. -/
theorem dispatch_pixels (lfb : Framebuffer) (rax r14 r13 r12 r11 r10 : Nat) (s : SyscallState) :
    (syscallDispatcher lfb rax r14 r13 r12 r11 r10 s).pixels =
      if rax = 2 then
        drawSquare lfb (uint r14) (uint r13) (uint r12) (uint r11) (uint r10) s.pixels
      else s.pixels := by
  match rax with
  | 0 => rfl
  | 1 => rfl
  | 2 => rfl
  | rax + 3 =>
    rw [if_neg (by omega), syscallDispatcher, if_pos (by unfold syscallCount; omega)]

/-- **What ring 3 can write.** A system call stays on the screen when it does
not draw, or draws a harmless rectangle. -/
theorem dispatch_onScreen_iff (lfb : Framebuffer) (rax r14 r13 r12 r11 r10 : Nat)
    (machine : Machine) (regs : SyscallRegArgs) :
    OnScreen lfb (syscallDispatcher lfb rax r14 r13 r12 r11 r10 ⟨machine, regs, []⟩).pixels ↔
      rax ≠ 2 ∨ Harmless lfb (uint r14) (uint r13) (uint r12) (uint r11) := by
  have word (r : Nat) : uint r < 4294967296 := Nat.mod_lt _ (by decide)
  rw [dispatch_pixels]
  by_cases draws : rax = 2
  · rw [if_pos draws, drawSquare_inside lfb _ (word _) (word _) (word _) (word _)]
    simp only [draws, ne_eq, not_true_eq_false, false_or]
  · rw [if_neg draws]
    exact ⟨fun _ => Or.inl draws, fun _ e he => absurd he List.not_mem_nil⟩

/-- A square of one pixel just below the screen. -/
theorem vga_below : ¬ OnScreen vga (syscallDispatcher vga 2 0 480 1 1 0xFFFFFF
    ⟨Machine.atStart (fun _ => 0) 0x2, ⟨0, 0, 0, 0, 0⟩, []⟩).pixels := by
  rw [dispatch_pixels, if_pos rfl, drawSquare_inside vga _ (by decide) (by decide) (by decide)
    (by decide)]
  simp [Harmless, uint, vga, int32]

end KessOS
