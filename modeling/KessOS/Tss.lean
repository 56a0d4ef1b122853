import KessOS.CStruct
import KessOS.Vmm

/-!
# The task state segment

`init_tss` fills `tss_entry` and the descriptor that makes the processor use
it. `ioFaults` is the processor's rule for `IN` and `OUT`, and `ioFaults_iff`
what it comes to for this segment.
-/

namespace KessOS

open CStruct (Field)

structure TssEntry where
  reserved1 : Nat := 0
  rsp0Low : Nat := 0
  rsp0High : Nat := 0
  rsp1Low : Nat := 0
  rsp1High : Nat := 0
  rsp2Low : Nat := 0
  rsp2High : Nat := 0
  reserved2 : Nat := 0
  ist1Low : Nat := 0
  ist1High : Nat := 0
  ist2Low : Nat := 0
  ist2High : Nat := 0
  ist3Low : Nat := 0
  ist3High : Nat := 0
  ist4Low : Nat := 0
  ist4High : Nat := 0
  ist5Low : Nat := 0
  ist5High : Nat := 0
  ist6Low : Nat := 0
  ist6High : Nat := 0
  ist7Low : Nat := 0
  ist7High : Nat := 0
  reserved3 : Nat := 0
  reserved4 : Nat := 0
  ioThing : Nat := 0

/-- The members in the order and with the types of `tss_entry_t`. -/
def TssEntry.fields (t : TssEntry) : List Field :=
  [⟨4, t.reserved1⟩, ⟨4, t.rsp0Low⟩, ⟨4, t.rsp0High⟩, ⟨4, t.rsp1Low⟩, ⟨4, t.rsp1High⟩,
    ⟨4, t.rsp2Low⟩, ⟨4, t.rsp2High⟩, ⟨8, t.reserved2⟩,
    ⟨4, t.ist1Low⟩, ⟨4, t.ist1High⟩, ⟨4, t.ist2Low⟩, ⟨4, t.ist2High⟩, ⟨4, t.ist3Low⟩,
    ⟨4, t.ist3High⟩, ⟨4, t.ist4Low⟩, ⟨4, t.ist4High⟩, ⟨4, t.ist5Low⟩, ⟨4, t.ist5High⟩,
    ⟨4, t.ist6Low⟩, ⟨4, t.ist6High⟩, ⟨4, t.ist7Low⟩, ⟨4, t.ist7High⟩,
    ⟨8, t.reserved3⟩, ⟨2, t.reserved4⟩, ⟨2, t.ioThing⟩]

def TssEntry.rsp0 (t : TssEntry) : Nat := t.rsp0Low + 4294967296 * t.rsp0High

/-- `sizeof(tss_entry)`. -/
def sizeofTssEntry : Nat := CStruct.sizeof (TssEntry.fields {})

/-- The bit fields of `tss_desc`, all zero in the slot the GDT reserves. -/
structure TssDesc where
  seglimit : Nat := 0
  baseAddrLow : Nat := 0
  baseAddrMiddle : Nat := 0
  type : Nat := 0
  zero : Nat := 0
  dpl : Nat := 0
  p : Nat := 0
  segLimitUpper : Nat := 0
  avl : Nat := 0
  unused : Nat := 0
  g : Nat := 0
  baseAddrOtherMiddle : Nat := 0
  baseAddrUpper : Nat := 0
  reserved : Nat := 0

/-- What the kernel sets up for the processor. `gdtTss` is the slot `GDT_TSS`
points to, once it does; `tr` the descriptor in the task register. -/
structure Kernel where
  vmm : Vmm
  tssEntry : TssEntry
  gdtTss : Option TssDesc
  tr : Option TssDesc
  rflags : Nat

/-- `cli`, and the pointer to the empty slot. -/
def loadGdt (k : Kernel) : Kernel :=
  { k with
    gdtTss := some (k.gdtTss.getD {})
    rflags := k.rflags &&& 0xfffffffffffffdff }

def describeTss (tssp : Nat) (d : TssDesc) : TssDesc :=
  { d with
    baseAddrLow := tssp &&& 0xFFFF
    baseAddrMiddle := (tssp &&& 0xFF0000) >>> 16
    baseAddrOtherMiddle := (tssp &&& 0xFF000000) >>> 24
    baseAddrUpper := (tssp &&& 0xFFFFFFFF00000000) >>> 32
    p := 0x1
    type := 0x9
    zero := 0x00
    dpl := 0
    seglimit := sizeofTssEntry
    g := 0x1 }

/-- `ltr` with selector 40, the slot after the five eight-byte descriptors. -/
def loadTss (k : Kernel) : Kernel := { k with tr := k.gdtTss }

/-- The ring 0 stack: the end of the page `alloc_page` returns. -/
def ringStack (vmm : Vmm) : Nat := (vmm.allocPage.1 + 4080) % 18446744073709551616

/-- With `tss_entry` at address `tssp`. -/
def initTss (tssp : Nat) (k : Kernel) : Kernel :=
  let stack := ringStack k.vmm
  loadTss
    { k with
      vmm := k.vmm.allocPage.2
      tssEntry := { k.tssEntry with
        rsp0Low := stack &&& 0xFFFFFFFF
        rsp0High := (stack &&& 0xFFFFFFFF00000000) >>> 32 }
      gdtTss := k.gdtTss.map (describeTss tssp) }

/-- Bits 12 and 13 of the flags are the I/O privilege level. -/
def ioplZero (k : Kernel) : Kernel :=
  { k with rflags := k.rflags &&& 0xffffffffffffefff &&& 0xffffffffffffdfff }

/-! ## The processor's rule -/

namespace TssDesc

def base (d : TssDesc) : Nat :=
  d.baseAddrLow + d.baseAddrMiddle <<< 16 + d.baseAddrOtherMiddle <<< 24 + d.baseAddrUpper <<< 32

/-- The last offset inside the segment; `g` counts it in pages. -/
def limit (d : TssDesc) : Nat :=
  let raw := d.seglimit + d.segLimitUpper <<< 16
  if d.g = 1 then raw * 4096 + 4095 else raw

end TssDesc

namespace Kernel

/-- The byte at a linear address: `tss_entry` at `tssp`, other memory elsewhere. -/
def byte (k : Kernel) (tssp x : Nat) : UInt8 :=
  if tssp ≤ x ∧ x < tssp + sizeofTssEntry then CStruct.byte k.tssEntry.fields (x - tssp)
  else k.vmm.mem x

/-- Byte `i` of the segment a descriptor describes. -/
def segmentByte (k : Kernel) (tssp : Nat) (d : TssDesc) (i : Nat) : UInt8 :=
  k.byte tssp ((d.base + i) % 18446744073709551616)

/-- The offset of the permission bitmap is the word at offset 102. -/
def ioMap (k : Kernel) (tssp : Nat) (d : TssDesc) : Nat :=
  (k.segmentByte tssp d 102).toNat + 256 * (k.segmentByte tssp d 103).toNat

/-- Bit `port` of the bitmap lies inside the segment and is clear. -/
def ioPermitted (k : Kernel) (tssp port : Nat) (d : TssDesc) : Bool :=
  decide (103 ≤ d.limit) && decide (k.ioMap tssp d + port / 8 ≤ d.limit) &&
    !(k.segmentByte tssp d (k.ioMap tssp d + port / 8)).toNat.testBit (port % 8)

/-- Whether `IN` or `OUT` on a port faults at a privilege level. -/
def ioFaults (k : Kernel) (tssp cpl port : Nat) : Bool :=
  let iopl := k.rflags >>> 12 &&& 3
  decide (iopl < cpl) && !(k.tr.any (k.ioPermitted tssp port))

/-- After `load_gdt`, `init_tss` and `iopl_zero`, with `tss_entry` as the
compiler initialises it. -/
def guarded (tssp : Nat) (vmm : Vmm) (rflags : Nat) : Kernel :=
  ioplZero (initTss tssp (loadGdt ⟨vmm, {}, none, none, rflags⟩))

end Kernel

/-! ## What it comes to -/

theorem sizeofTssEntry_eq : sizeofTssEntry = 112 := by decide

theorem ioplZero_iopl (k : Kernel) : (ioplZero k).rflags >>> 12 &&& 3 = 0 := by
  apply Nat.eq_of_testBit_eq
  intro i
  simp only [ioplZero, Nat.testBit_and, Nat.testBit_shiftRight, Nat.zero_testBit]
  match i with
  | 0 => rw [show Nat.testBit 0xffffffffffffefff (12 + 0) = false by decide]; simp
  | 1 => rw [show Nat.testBit 0xffffffffffffdfff (12 + 1) = false by decide]; simp
  | i + 2 =>
    have high : Nat.testBit 3 (i + 2) = false := by
      apply Nat.testBit_lt_two_pow
      have := Nat.one_le_two_pow (n := i)
      have := Nat.pow_add 2 i 2
      omega
    rw [high, Bool.and_false]

theorem describeTss_base {tssp : Nat} (h : tssp < 18446744073709551616) (d : TssDesc) :
    (describeTss tssp d).base = tssp := by
  have low : tssp &&& 0xFFFF = tssp % 65536 := by simpa using Nat.and_two_pow_sub_one_eq_mod tssp 16
  have middle : (tssp &&& 0xFF0000) >>> 16 = tssp / 65536 % 256 := Bits.field_shift tssp 8 16
  have other : (tssp &&& 0xFF000000) >>> 24 = tssp / 16777216 % 256 := Bits.field_shift tssp 8 24
  have upper : (tssp &&& 0xFFFFFFFF00000000) >>> 32 = tssp / 4294967296 % 4294967296 :=
    Bits.field_shift tssp 32 32
  unfold TssDesc.base describeTss
  dsimp only
  rw [low, middle, other, upper, Nat.shiftLeft_eq, Nat.shiftLeft_eq, Nat.shiftLeft_eq]
  omega

theorem describeTss_limit (tssp : Nat) : (describeTss tssp {}).limit = 462847 := by
  simp only [TssDesc.limit, describeTss, sizeofTssEntry_eq]
  decide

theorem ringStack_lt (vmm : Vmm) : ringStack vmm < 18446744073709551616 :=
  Nat.mod_lt _ (by decide)

/-- `init_tss` stores the stack address in two halves. -/
theorem halves {stack : Nat} (h : stack < 18446744073709551616) :
    stack &&& 0xFFFFFFFF = stack % 4294967296 ∧
      (stack &&& 0xFFFFFFFF00000000) >>> 32 = stack / 4294967296 := by
  have low : stack &&& 0xFFFFFFFF = stack % 4294967296 := by
    simpa using Nat.and_two_pow_sub_one_eq_mod stack 32
  have high : (stack &&& 0xFFFFFFFF00000000) >>> 32 = stack / 4294967296 % 4294967296 :=
    Bits.field_shift stack 32 32
  refine ⟨low, ?_⟩
  rw [high]
  omega

theorem initTss_rsp0 (tssp : Nat) (k : Kernel) :
    (initTss tssp k).tssEntry.rsp0 = ringStack k.vmm := by
  simp only [initTss, loadTss, TssEntry.rsp0]
  obtain ⟨low, high⟩ := halves (ringStack_lt k.vmm)
  rw [low, high]
  omega

theorem tss_layout (t : TssEntry) : CStruct.layout 0 t.fields =
    [(0, ⟨4, t.reserved1⟩), (4, ⟨4, t.rsp0Low⟩), (8, ⟨4, t.rsp0High⟩), (12, ⟨4, t.rsp1Low⟩),
      (16, ⟨4, t.rsp1High⟩), (20, ⟨4, t.rsp2Low⟩), (24, ⟨4, t.rsp2High⟩), (32, ⟨8, t.reserved2⟩),
      (40, ⟨4, t.ist1Low⟩), (44, ⟨4, t.ist1High⟩), (48, ⟨4, t.ist2Low⟩), (52, ⟨4, t.ist2High⟩),
      (56, ⟨4, t.ist3Low⟩), (60, ⟨4, t.ist3High⟩), (64, ⟨4, t.ist4Low⟩), (68, ⟨4, t.ist4High⟩),
      (72, ⟨4, t.ist5Low⟩), (76, ⟨4, t.ist5High⟩), (80, ⟨4, t.ist6Low⟩), (84, ⟨4, t.ist6High⟩),
      (88, ⟨4, t.ist7Low⟩), (92, ⟨4, t.ist7High⟩), (96, ⟨8, t.reserved3⟩), (104, ⟨2, t.reserved4⟩),
      (106, ⟨2, t.ioThing⟩)] := by
  simp [TssEntry.fields, CStruct.layout, CStruct.alignUp]

theorem tss_ordered (t : TssEntry) : CStruct.Ordered (CStruct.layout 0 t.fields) := by
  apply CStruct.layout_ordered
  simp [TssEntry.fields]

/-- The bytes of `tss_entry` when only `rsp0` is set. -/
theorem byte_rsp0 (low high i : Nat) :
    CStruct.byte (TssEntry.fields { rsp0Low := low, rsp0High := high }) i =
      if 4 ≤ i ∧ i < 8 then UInt8.ofNat (low / 256 ^ (i - 4))
      else if 8 ≤ i ∧ i < 12 then UInt8.ofNat (high / 256 ^ (i - 8))
      else 0 := by
  have layout := tss_layout { rsp0Low := low, rsp0High := high }
  have ordered := tss_ordered { rsp0Low := low, rsp0High := high }
  rw [CStruct.byte_eq]
  split
  · next inside =>
    have listed : (4, ⟨4, low⟩) ∈
        CStruct.layout 0 (TssEntry.fields { rsp0Low := low, rsp0High := high }) := by
      rw [layout]
      simp
    have byte := CStruct.byteIn_member ordered listed (show i - 4 < 4 by omega)
    rwa [Nat.add_sub_of_le inside.1] at byte
  · next outside =>
    split
    · next inside =>
      have listed : (8, ⟨4, high⟩) ∈
          CStruct.layout 0 (TssEntry.fields { rsp0Low := low, rsp0High := high }) := by
        rw [layout]
        simp
      have byte := CStruct.byteIn_member ordered listed (show i - 8 < 4 by omega)
      rwa [Nat.add_sub_of_le inside.1] at byte
    · next beyond =>
      have others : ∀ x ∈ CStruct.layout 0 (TssEntry.fields { rsp0Low := low, rsp0High := high }),
          x.1 = 4 ∧ x.2.size = 4 ∨ x.1 = 8 ∧ x.2.size = 4 ∨ x.2.value = 0 := by
        rw [layout]
        simp
      apply CStruct.byteIn_zero
      intro x listed lo hi
      rcases others x listed with ⟨start, size⟩ | ⟨start, size⟩ | zero
      · omega
      · omega
      · exact zero

/-- The stack is taken from the allocator, and memory is left alone. -/
theorem guarded_mem (tssp : Nat) (vmm : Vmm) (rflags : Nat) :
    (Kernel.guarded tssp vmm rflags).vmm.mem = vmm.mem := by
  show vmm.allocPage.2.mem = vmm.mem
  unfold Vmm.allocPage
  split <;> rfl

section
variable {tssp : Nat} (fits : tssp + sizeofTssEntry ≤ 18446744073709551616) (vmm : Vmm)
  (rflags : Nat)
include fits

/-- Inside the segment the processor reads `tss_entry`, after it other memory. -/
theorem guarded_byte {i : Nat} (hi : i < 8192) :
    (Kernel.guarded tssp vmm rflags).segmentByte tssp (describeTss tssp {}) i =
      if 4 ≤ i ∧ i < 8 then UInt8.ofNat ((ringStack vmm % 4294967296) / 256 ^ (i - 4))
      else if 8 ≤ i ∧ i < 12 then UInt8.ofNat (ringStack vmm / 4294967296 / 256 ^ (i - 8))
      else if i < 112 then 0
      else vmm.mem ((tssp + i) % 18446744073709551616) := by
  rw [sizeofTssEntry_eq] at fits
  obtain ⟨low, high⟩ := halves (ringStack_lt vmm)
  have entry : (Kernel.guarded tssp vmm rflags).tssEntry =
      { rsp0Low := ringStack vmm % 4294967296, rsp0High := ringStack vmm / 4294967296 } := by
    rw [← low, ← high]
    rfl
  rw [Kernel.segmentByte, describeTss_base (by omega), Kernel.byte, sizeofTssEntry_eq, entry,
    guarded_mem, byte_rsp0]
  by_cases inside : i < 112
  · have here : (tssp + i) % 18446744073709551616 = tssp + i := Nat.mod_eq_of_lt (by omega)
    rw [here, if_pos (by omega), Nat.add_sub_cancel_left, if_pos inside]
  · rw [if_neg (by omega), if_neg (by omega), if_neg (by omega), if_neg inside]

/-- The stack address is the only part of the segment with bits set. -/
theorem guarded_bit {port : Nat} (hp : port < 65536) :
    ((Kernel.guarded tssp vmm rflags).segmentByte tssp (describeTss tssp {})
      (port / 8)).toNat.testBit (port % 8) = true ↔
      (32 ≤ port ∧ port < 96 ∧ (ringStack vmm).testBit (port - 32) = true) ∨
      (896 ≤ port ∧
        (vmm.mem ((tssp + port / 8) % 18446744073709551616)).toNat.testBit (port % 8) = true) := by
  rw [guarded_byte fits vmm rflags (by omega)]
  have bit : port % 8 < 8 := by omega
  split
  · next low =>
    have place : 8 * (port / 8 - 4) + port % 8 = port - 32 := by omega
    have below : port - 32 < 32 := by omega
    rw [CStruct.testBit_digit _ _ bit, place, show 4294967296 = 2 ^ 32 from rfl,
      Nat.testBit_mod_two_pow]
    simp only [below, decide_true, Bool.true_and]
    constructor
    · exact fun h => Or.inl ⟨by omega, by omega, h⟩
    · rintro (⟨_, _, h⟩ | ⟨high, _⟩)
      · exact h
      · omega
  · split
    · next middle =>
      have place : 32 + (8 * (port / 8 - 8) + port % 8) = port - 32 := by omega
      rw [CStruct.testBit_digit _ _ bit, show 4294967296 = 2 ^ 32 from rfl,
        Nat.testBit_div_two_pow, Nat.add_comm, place]
      constructor
      · exact fun h => Or.inl ⟨by omega, by omega, h⟩
      · rintro (⟨_, _, h⟩ | ⟨high, _⟩)
        · exact h
        · omega
    · split
      · next inside =>
        rw [UInt8.toNat_zero, Nat.zero_testBit]
        constructor
        · exact fun h => absurd h (by decide)
        · rintro (⟨_, _, _⟩ | ⟨high, _⟩)
          · omega
          · omega
      · next beyond =>
        constructor
        · exact fun h => Or.inr ⟨by omega, h⟩
        · rintro (⟨_, _, _⟩ | ⟨_, h⟩)
          · omega
          · exact h

/-- The bitmap is looked for at the start of the segment, and the limit leaves
room for every port. -/
theorem guarded_faults {port : Nat} (hp : port < 65536) :
    (Kernel.guarded tssp vmm rflags).ioFaults tssp 3 port =
      ((Kernel.guarded tssp vmm rflags).segmentByte tssp (describeTss tssp {})
        (port / 8)).toNat.testBit (port % 8) := by
  have iopl : (Kernel.guarded tssp vmm rflags).rflags >>> 12 &&& 3 = 0 := ioplZero_iopl _
  have tr : (Kernel.guarded tssp vmm rflags).tr = some (describeTss tssp {}) := rfl
  have start (i : Nat) (hi : i = 102 ∨ i = 103) :
      (Kernel.guarded tssp vmm rflags).segmentByte tssp (describeTss tssp {}) i = 0 := by
    rw [guarded_byte fits vmm rflags (by omega), if_neg (by omega), if_neg (by omega),
      if_pos (by omega)]
  have map : (Kernel.guarded tssp vmm rflags).ioMap tssp (describeTss tssp {}) = 0 := by
    rw [Kernel.ioMap, start 102 (Or.inl rfl), start 103 (Or.inr rfl)]
    rfl
  have inside : port / 8 ≤ 462847 := by omega
  rw [Kernel.ioFaults, tr, Option.any_some, Kernel.ioPermitted, map, describeTss_limit, iopl]
  simp [inside]

/-- **When ring 3 is refused a port.** The first bits of the bitmap are the
segment's own contents. -/
theorem ioFaults_iff {port : Nat} (hp : port < 65536) :
    (Kernel.guarded tssp vmm rflags).ioFaults tssp 3 port = true ↔
      (32 ≤ port ∧ port < 96 ∧ (ringStack vmm).testBit (port - 32) = true) ∨
      (896 ≤ port ∧
        (vmm.mem ((tssp + port / 8) % 18446744073709551616)).toNat.testBit (port % 8) = true) := by
  rw [guarded_faults fits vmm rflags hp]
  exact guarded_bit fits vmm rflags hp

end

theorem ioFaults_iff_keyboard : (Kernel.guarded 0x200000 (Vmm.initial fun _ => 0) 0x202).ioFaults
    0x200000 3 0x60 = true ↔
      (32 ≤ 0x60 ∧ 0x60 < 96 ∧
        (ringStack (Vmm.initial fun _ => 0)).testBit (0x60 - 32) = true) ∨
      (896 ≤ 0x60 ∧ ((Vmm.initial fun _ => 0).mem
        ((0x200000 + 0x60 / 8) % 18446744073709551616)).toNat.testBit (0x60 % 8) = true) :=
  ioFaults_iff (by decide) (Vmm.initial fun _ => 0) 0x202 (by decide)

/-- Ring 3 may read the keyboard port. -/
theorem keyboard_open : (Kernel.guarded 0x200000 (Vmm.initial fun _ => 0) 0x202).ioFaults
    0x200000 3 0x60 = false := by
  rw [guarded_faults (by decide) _ _ (by decide), guarded_byte (by decide) _ _ (by decide)]
  decide

end KessOS
