import KessOS.Acpi
import KessOS.Log
import KessOS.MapRun
import KessOS.Tss

/-!
# The boot routine

`init` runs the set-up steps of the kernel in their order. `init_tss` asks the
allocator for a stack before `set_placement` has given it any pages:
`init_stack_not_owned` says what becomes of that stack.
-/

namespace KessOS

structure IdtVector where
  isrLow16 : Nat
  kernelCs : Nat
  ist : Nat
  attr : Nat
  isrMid16 : Nat
  isrHigh32 : Nat
  reserved : Nat

inductive Handler where
  | div0Handler
  | debugException
  | overflowException
  | breException
  | invalidOpcodeException
  | devNotAvailException
  | doubleFault
  | invalidTssException
  | snpException
  | stacksegFault
  | gpf
  | pageFault
  | irq0Handler
  | irq1Handler
  | syscallGate

/-- Where the linker put things, and what the ports answer after some output. -/
structure Env where
  image : Image
  tssEntry : Nat
  idt : Nat
  isr : Handler → Nat
  answer : List (Nat × Nat) → Nat → Nat

/-- The machine during boot. `out` holds the bytes written to ports and
`logged` the messages, both latest first; `halted` ends the run. -/
structure Machine where
  kernel : Kernel
  idt : Nat → IdtVector
  idtr : Option (Nat × Nat)
  out : List (Nat × Nat)
  logged : List (Status × String)
  acpi : Option Acpi.Tables
  halted : Bool

namespace Machine

/-- The machine the bootloader leaves, with memory `m`. -/
def atStart (m : Mem) (rflags : Nat) : Machine where
  kernel := ⟨Vmm.initial m, {}, none, none, rflags⟩
  idt := fun _ => ⟨0, 0, 0, 0, 0, 0, 0⟩
  idtr := none
  out := []
  logged := []
  acpi := none
  halted := false

def onKernel (f : Kernel → Kernel) (s : Machine) : Machine := { s with kernel := f s.kernel }

def log (status : Status) (text : String) (s : Machine) : Machine :=
  { s with logged := (status, text) :: s.logged }

def outportb (port data : Nat) (s : Machine) : Machine :=
  { s with out := (port, data % 256) :: s.out }

def ioWait (s : Machine) : Machine := s.outportb 0x80 0x0

/-- The flags are an `int`, of which `attr` holds eight bits. -/
def setIdtVec (vec isr flags : Nat) (s : Machine) : Machine :=
  { s with idt := fun v =>
      if v = vec then
        { isrLow16 := isr &&& 0xFFFF
          kernelCs := 0x08
          ist := 0x0
          attr := flags % 256
          isrMid16 := isr >>> 16 &&& 0xFFFF
          isrHigh32 := isr >>> 32 &&& 0xFFFFFFFF
          reserved := 0x0 }
      else s.idt v }

/-- `sizeof(struct IDTVector)` is 16. -/
def idtInstall (base : Nat) (s : Machine) : Machine := { s with idtr := some (16 * 256 - 1, base) }

def pic1Command : Nat := 0x20
def pic1Data : Nat := 0x21
def pic2Command : Nat := 0xA0
def pic2Data : Nat := 0xA1
def icw1Init : Nat := 0x10
def icw1Icw4 : Nat := 0x01
def icw48086 : Nat := 0x01

def initPic (s : Machine) : Machine :=
  let s := (s.outportb pic1Command (icw1Init ||| icw1Icw4)).ioWait
  let s := (s.outportb pic2Command (icw1Init ||| icw1Icw4)).ioWait
  let s := (s.outportb pic1Data 0x20).ioWait
  let s := (s.outportb pic2Data 0x28).ioWait
  let s := (s.outportb pic1Data 4).ioWait
  let s := (s.outportb pic2Data 2).ioWait
  let s := (s.outportb pic1Data icw48086).ioWait
  let s := (s.outportb pic2Data icw48086).ioWait
  let s := (s.outportb pic1Data 0xFF).ioWait
  s.outportb pic2Data 0xFF

def setPitPhase (hz : Nat) (s : Machine) : Machine :=
  let divisor := 1193180 / hz % 65536
  let s := s.outportb 0x43 0x36
  let s := s.outportb 0x40 (divisor &&& 0xFF)
  s.outportb 0x40 (divisor >>> 8)

def trapGateFlags : Nat := 0x8F
def intGateFlags : Nat := 0x8E
def idtIntGateUser : Nat := 0xEE

def setExceptions (env : Env) (s : Machine) : Machine :=
  let s := s.setIdtVec 0x0 (env.isr .div0Handler) trapGateFlags
  let s := s.setIdtVec 0x1 (env.isr .debugException) trapGateFlags
  let s := s.setIdtVec 0x4 (env.isr .overflowException) trapGateFlags
  let s := s.setIdtVec 0x5 (env.isr .breException) trapGateFlags
  let s := s.setIdtVec 0x6 (env.isr .invalidOpcodeException) trapGateFlags
  let s := s.setIdtVec 0x7 (env.isr .devNotAvailException) trapGateFlags
  let s := s.setIdtVec 0x8 (env.isr .doubleFault) trapGateFlags
  let s := s.setIdtVec 0xA (env.isr .invalidTssException) trapGateFlags
  let s := s.setIdtVec 0xB (env.isr .snpException) trapGateFlags
  let s := s.setIdtVec 0xC (env.isr .stacksegFault) trapGateFlags
  let s := s.setIdtVec 0xD (env.isr .gpf) trapGateFlags
  s.setIdtVec 0xE (env.isr .pageFault) trapGateFlags

/-- The tables, or the message and the halt, that `acpi_init` ends with. -/
def endAcpi (s : Machine) : Except String Acpi.Tables → Machine
  | .ok tables => { s with acpi := some tables }
  | .error text => { s.log .critical text with halted := true }

def acpiInit (rsdp : Nat) (s : Machine) : Machine :=
  let s := s.log .info "Setting up ACPI..\n"
  s.endAcpi (Acpi.acpiInit s.kernel.vmm.mem rsdp)

/-- Everything up to `init_vmm`. -/
def initBefore (env : Env) (s : Machine) : Machine :=
  let s := s.onKernel loadGdt
  let s := s.onKernel (initTss env.tssEntry)
  let s := s.log .info "Setting up exceptions..\n"
  let s := s.setExceptions env
  let s := s.log .info "Installing Interrupt Descriptor Table..\n"
  let s := s.idtInstall env.idt
  let s :=
    s.log .info "Setting up legacy PIC (legacy mode is off, will use APIC one day\n"
  let s := s.initPic
  let s := s.setIdtVec 0x20 (env.isr .irq0Handler) intGateFlags
  let s := s.setIdtVec 0x21 (env.isr .irq1Handler) intGateFlags
  let s := s.setIdtVec 0x80 (env.isr .syscallGate) idtIntGateUser
  let s := s.setPitPhase 100
  s.outportb pic1Data (env.answer s.out pic1Data ^^^ 1)

def init (env : Env) (meminfo : Meminfo) (rsdp : Nat) (s : Machine) : Machine :=
  let s := s.initBefore env
  let s := s.onKernel fun k => { k with vmm := k.vmm.initVmm env.image meminfo }
  s.acpiInit rsdp

end Machine

open Vmm (newAllocs)

/-- The ring 0 stack lies in a page of the segment that `alloc_page` handed
out, and `map_page` did not take that page between `before` and `after`. -/
def OwnsStack (segment : Memdesc) (before : Vmm) (after : Kernel) : Prop :=
  ∃ f, some f ∈ after.vmm.allocs ∧
    (segment.physAddr ≤ f ∧ f < segment.physAddr + 4096 * segment.nPages) ∧
    (f ≤ after.tssEntry.rsp0 ∧ after.tssEntry.rsp0 < f + 4096) ∧
    some f ∉ newAllocs before after.vmm

section
open Machine

variable (s : Machine)

@[simp] theorem onKernel_kernel (f : Kernel → Kernel) : (s.onKernel f).kernel = f s.kernel := rfl
@[simp] theorem log_kernel (status : Status) (text : String) :
    (s.log status text).kernel = s.kernel := rfl
@[simp] theorem outportb_kernel (port data : Nat) : (s.outportb port data).kernel = s.kernel := rfl
@[simp] theorem setIdtVec_kernel (vec isr flags : Nat) :
    (s.setIdtVec vec isr flags).kernel = s.kernel := rfl
@[simp] theorem idtInstall_kernel (base : Nat) : (s.idtInstall base).kernel = s.kernel := rfl

@[simp] theorem setExceptions_kernel (env : Env) : (s.setExceptions env).kernel = s.kernel := by
  simp only [setExceptions, setIdtVec_kernel]

@[simp] theorem initPic_kernel : s.initPic.kernel = s.kernel := by
  simp only [initPic, ioWait, outportb_kernel]

@[simp] theorem setPitPhase_kernel (hz : Nat) : (s.setPitPhase hz).kernel = s.kernel := by
  simp only [setPitPhase, outportb_kernel]

@[simp] theorem endAcpi_kernel (r : Except String Acpi.Tables) :
    (s.endAcpi r).kernel = s.kernel := by
  cases r <;> rfl

@[simp] theorem acpiInit_kernel (rsdp : Nat) : (s.acpiInit rsdp).kernel = s.kernel := by
  simp only [acpiInit, endAcpi_kernel, log_kernel]

/-- Of the steps before `init_vmm` only the first two concern the allocator
and the task state segment. -/
theorem initBefore_kernel (env : Env) :
    (s.initBefore env).kernel = initTss env.tssEntry (loadGdt s.kernel) := by
  simp only [initBefore, outportb_kernel, setPitPhase_kernel, setIdtVec_kernel, initPic_kernel,
    log_kernel, idtInstall_kernel, setExceptions_kernel, onKernel_kernel]

theorem init_kernel (env : Env) (meminfo : Meminfo) (rsdp : Nat) :
    (s.init env meminfo rsdp).kernel =
      { (s.initBefore env).kernel with
        vmm := (s.initBefore env).kernel.vmm.initVmm env.image meminfo } := by
  simp only [init, acpiInit_kernel, onKernel_kernel]

end

/-- `init_tss` allocates, and gets nothing. -/
theorem atStart_allocs (tssp : Nat) (m : Mem) (rflags : Nat) :
    (initTss tssp (loadGdt (Machine.atStart m rflags).kernel)).vmm.allocs = [none] := by
  have empty := Vmm.allocPage_none (s := Vmm.initial m) rfl
  exact congrArg (fun r => r.2.allocs) empty

theorem atStart_rsp0 (tssp : Nat) (m : Mem) (rflags : Nat) :
    (initTss tssp (loadGdt (Machine.atStart m rflags).kernel)).tssEntry.rsp0 = 4080 := by
  have empty := Vmm.allocPage_none (s := Vmm.initial m) rfl
  rw [initTss_rsp0, show (loadGdt (Machine.atStart m rflags).kernel).vmm = Vmm.initial m from rfl,
    ringStack, empty]
  dsimp only

/-- `init_vmm` adds its frames to the record. -/
theorem initVmm_allocs (k : Image) (s : Vmm) (meminfo : Meminfo) :
    (s.initVmm k meminfo).allocs = newAllocs s (s.initVmm k meminfo) ++ s.allocs := by
  obtain ⟨new, grown⟩ := (Vmm.mapPages_later (k := k) (s.startVmm k meminfo) Vmm.initPages).allocs
  have start : (s.startVmm k meminfo).allocs = s.allocs := by
    simp only [Vmm.startVmm, Vmm.setPlacement]
  rw [← Vmm.initVmm, start] at grown
  rw [Vmm.newAllocs_eq grown, grown]

/-- Every page handed out from then on is taken by `map_page`. -/
theorem not_owned {k : Kernel} (nothing : ∀ f, some f ∉ k.vmm.allocs) (image : Image)
    (meminfo : Meminfo) (segment : Memdesc) :
    ¬ OwnsStack segment k.vmm { k with vmm := k.vmm.initVmm image meminfo } := by
  rintro ⟨f, handed, _, _, fresh⟩
  dsimp only at handed fresh
  rw [initVmm_allocs] at handed
  cases List.mem_append.mp handed with
  | inl new => exact fresh new
  | inr old => exact nothing f old

theorem atStart_nothing (tssp : Nat) (m : Mem) (rflags f : Nat) :
    some f ∉ (initTss tssp (loadGdt (Machine.atStart m rflags).kernel)).vmm.allocs := by
  rw [atStart_allocs]
  simp

/-- **The ring 0 stack is page 0 on every boot**, and never a page of the
segment that the page tables leave alone. -/
theorem init_stack_not_owned (env : Env) (m : Mem) (rflags : Nat) (meminfo : Meminfo)
    (rsdp : Nat) :
    ((Machine.atStart m rflags).init env meminfo rsdp).kernel.tssEntry.rsp0 = 4080 ∧
      ¬ OwnsStack (largestSegment m meminfo ⟨0, 0, 0, 0, 0⟩)
        ((Machine.atStart m rflags).initBefore env).kernel.vmm
        ((Machine.atStart m rflags).init env meminfo rsdp).kernel := by
  rw [init_kernel, initBefore_kernel]
  exact ⟨atStart_rsp0 env.tssEntry m rflags,
    not_owned (atStart_nothing env.tssEntry m rflags) env.image meminfo _⟩

/-- A boot with sixteen megabytes of usable memory. -/
theorem sixteen_megabytes_not_owned :
    0 < (largestSegment (oneSegment 0x100000 4096) oneEntry ⟨0, 0, 0, 0, 0⟩).nPages ∧
      ¬ OwnsStack (largestSegment (oneSegment 0x100000 4096) oneEntry ⟨0, 0, 0, 0, 0⟩)
        ((Machine.atStart (oneSegment 0x100000 4096) 0x2).initBefore
          ⟨Vmm.lowRoot, 0x2000, 0x3000, fun _ => 0x4000, fun _ _ => 0xFF⟩).kernel.vmm
        ((Machine.atStart (oneSegment 0x100000 4096) 0x2).init
          ⟨Vmm.lowRoot, 0x2000, 0x3000, fun _ => 0x4000, fun _ _ => 0xFF⟩ oneEntry 0).kernel := by
  constructor
  · rw [largestSegment_one (by decide) (by decide) (by decide)]
    decide
  · rw [init_kernel, initBefore_kernel]
    exact not_owned (atStart_nothing _ _ _) Vmm.lowRoot oneEntry _

end KessOS
