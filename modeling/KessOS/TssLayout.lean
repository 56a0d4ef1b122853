import KessOS.Tss
import Mathlib.Tactic.IntervalCases

/-!
# The task state segment the processor reads

`tss_entry_t` is not packed, so the compiler puts four bytes of padding in front
of `reserved2`, and every later member lies four bytes past its place in the
processor's layout. The limit in the descriptor counts pages.

* `tss_reads`: what the processor finds in each of its fields;
* `initTss_never_reads_back`: it never is what the kernel wrote.
-/

namespace KessOS

open CStruct (Field)

/-- The two halves of the entries of the interrupt stack table. -/
def TssEntry.istLow (t : TssEntry) : Nat → Nat
  | 1 => t.ist1Low
  | 2 => t.ist2Low
  | 3 => t.ist3Low
  | 4 => t.ist4Low
  | 5 => t.ist5Low
  | 6 => t.ist6Low
  | 7 => t.ist7Low
  | _ => 0

def TssEntry.istHigh (t : TssEntry) : Nat → Nat
  | 1 => t.ist1High
  | 2 => t.ist2High
  | 3 => t.ist3High
  | 4 => t.ist4High
  | 5 => t.ist5High
  | 6 => t.ist6High
  | 7 => t.ist7High
  | _ => 0

def TssEntry.ist (t : TssEntry) (n : Nat) : Nat := t.istLow n + 4294967296 * t.istHigh n

/-- The four bytes in front of `istnLow`: the upper half of the member before it. -/
def TssEntry.beforeIst (t : TssEntry) (n : Nat) : Nat :=
  if n = 1 then t.reserved2 / 4294967296 else t.istHigh (n - 1)

/-- The processor finds what the members of those names hold: `RSP0` at offset 4,
the stack table from offset 36 on, the bitmap offset at 102. -/
structure ReadsBack (k : Kernel) (tssp stack : Nat) (d : TssDesc) : Prop where
  base : d.base = tssp
  limit : d.limit = 103
  rsp0 : Mem.readLE (k.segmentByte tssp d) 4 8 = stack
  ist : ∀ n, 1 ≤ n → n ≤ 7 →
    Mem.readLE (k.segmentByte tssp d) (28 + 8 * n) 8 = k.tssEntry.ist n
  ioMap : k.ioMap tssp d = k.tssEntry.ioThing

/-! ## The members in memory -/

/-- The descriptor after `load_gdt` and `init_tss`. -/
def tssDescriptor (tssp : Nat) (k : Kernel) : TssDesc := describeTss tssp (k.gdtTss.getD {})

section
variable {tssp : Nat} (fits : tssp + sizeofTssEntry ≤ 18446744073709551616) (k : Kernel)
  (d : TssDesc)
include fits

/-- Inside the object the segment is `tss_entry`. -/
theorem segment_entry {o n : Nat} (inside : o + n ≤ 112) :
    Mem.readLE (k.segmentByte tssp (describeTss tssp d)) o n =
      Mem.readLE (CStruct.byteIn (CStruct.layout 0 k.tssEntry.fields)) o n := by
  rw [sizeofTssEntry_eq] at fits
  apply Mem.readLE_congr
  intro i hi
  rw [Kernel.segmentByte, describeTss_base (by omega), Nat.mod_eq_of_lt (by omega), Kernel.byte,
    sizeofTssEntry_eq, if_pos (by omega), Nat.add_sub_cancel_left, CStruct.byte_eq]

/-- Part of a member, as the processor reads it. -/
theorem segment_member {o : Nat} {f : Field}
    (listed : (o, f) ∈ CStruct.layout 0 k.tssEntry.fields) {j n : Nat} (inside : j + n ≤ f.size)
    (last : o + f.size ≤ 112) :
    Mem.readLE (k.segmentByte tssp (describeTss tssp d)) (o + j) n =
      f.value / 256 ^ j % 256 ^ n := by
  rw [segment_entry fits k d (by omega)]
  exact CStruct.readLE_member (tss_ordered k.tssEntry) listed inside

/-- A whole member of four bytes. -/
theorem segment_word {o v : Nat} (listed : (o, ⟨4, v⟩) ∈ CStruct.layout 0 k.tssEntry.fields)
    (last : o + 4 ≤ 112) :
    Mem.readLE (k.segmentByte tssp (describeTss tssp d)) o 4 = v % 4294967296 := by
  have member := segment_member fits k d listed (j := 0) (n := 4) (by simp) last
  rwa [Nat.pow_zero, Nat.div_one] at member

theorem segment_istLow {n : Nat} (lo : 1 ≤ n) (hi : n ≤ 7) :
    Mem.readLE (k.segmentByte tssp (describeTss tssp d)) (28 + 8 * n + 4) 4 =
      k.tssEntry.istLow n % 4294967296 := by
  have listed : (28 + 8 * n + 4, ⟨4, k.tssEntry.istLow n⟩) ∈
      CStruct.layout 0 k.tssEntry.fields := by
    rw [tss_layout]
    interval_cases n <;> simp [TssEntry.istLow]
  exact segment_word fits k d listed (by omega)

theorem segment_beforeIst {n : Nat} (lo : 1 ≤ n) (hi : n ≤ 7) :
    Mem.readLE (k.segmentByte tssp (describeTss tssp d)) (28 + 8 * n) 4 =
      k.tssEntry.beforeIst n % 4294967296 := by
  by_cases first : n = 1
  · subst first
    have listed : (32, ⟨8, k.tssEntry.reserved2⟩) ∈ CStruct.layout 0 k.tssEntry.fields := by
      rw [tss_layout]
      simp
    exact segment_member fits k d listed (j := 4) (n := 4) (by simp) (by simp)
  · have listed : (28 + 8 * n, ⟨4, k.tssEntry.istHigh (n - 1)⟩) ∈
        CStruct.layout 0 k.tssEntry.fields := by
      rw [tss_layout]
      interval_cases n <;> simp [TssEntry.istHigh] at first ⊢
    rw [TssEntry.beforeIst, if_neg first]
    exact segment_word fits k d listed (by omega)

end

/-- A field of the processor that takes the halves of two members. -/
theorem readLE_halves {m : Mem} {o low high : Nat} (first : m.readLE o 4 = low)
    (second : m.readLE (o + 4) 4 = high) : m.readLE o 8 = low + 4294967296 * high := by
  have split := m.readLE_append o 4 4
  rw [first, second] at split
  exact split

/-- `load_gdt` and `init_tss` change the ring 0 stack of the entry alone. -/
theorem initTss_entry (tssp : Nat) (k : Kernel) :
    (initTss tssp (loadGdt k)).tssEntry =
      { k.tssEntry with
        rsp0Low := ringStack k.vmm % 4294967296
        rsp0High := ringStack k.vmm / 4294967296 } := by
  obtain ⟨low, high⟩ := halves (ringStack_lt k.vmm)
  rw [← low, ← high]
  rfl

theorem initTss_istLow (tssp : Nat) (k : Kernel) (n : Nat) :
    (initTss tssp (loadGdt k)).tssEntry.istLow n = k.tssEntry.istLow n := by
  rw [initTss_entry]
  unfold TssEntry.istLow
  split <;> rfl

theorem initTss_istHigh (tssp : Nat) (k : Kernel) (n : Nat) :
    (initTss tssp (loadGdt k)).tssEntry.istHigh n = k.tssEntry.istHigh n := by
  rw [initTss_entry]
  unfold TssEntry.istHigh
  split <;> rfl

theorem initTss_beforeIst (tssp : Nat) (k : Kernel) (n : Nat) :
    (initTss tssp (loadGdt k)).tssEntry.beforeIst n = k.tssEntry.beforeIst n := by
  rw [TssEntry.beforeIst, TssEntry.beforeIst, initTss_istHigh, initTss_entry]

/-- **What the processor finds** after `init_tss`: the address and the ring 0 stack
are right; an entry of the stack table is the upper half of one member and the
lower half of the next; the bitmap offset comes from `reserved3`. -/
theorem tss_reads {tssp : Nat} (fits : tssp + sizeofTssEntry ≤ 18446744073709551616) (k : Kernel) :
    (tssDescriptor tssp k).base = tssp ∧
    Mem.readLE ((initTss tssp (loadGdt k)).segmentByte tssp (tssDescriptor tssp k)) 4 8 =
      ringStack k.vmm ∧
    (∀ n, 1 ≤ n → n ≤ 7 →
      Mem.readLE ((initTss tssp (loadGdt k)).segmentByte tssp (tssDescriptor tssp k))
          (28 + 8 * n) 8 =
        k.tssEntry.beforeIst n % 4294967296 + 4294967296 * (k.tssEntry.istLow n % 4294967296)) ∧
    (initTss tssp (loadGdt k)).ioMap tssp (tssDescriptor tssp k) =
      k.tssEntry.reserved3 / 281474976710656 % 65536 := by
  have room := fits
  rw [sizeofTssEntry_eq] at room
  let after := initTss tssp (loadGdt k)
  have fields := tss_layout after.tssEntry
  constructor
  · exact describeTss_base (by omega) _
  constructor
  · have lower : (4, ⟨4, ringStack k.vmm % 4294967296⟩) ∈
        CStruct.layout 0 after.tssEntry.fields := by
      rw [fields, initTss_entry]
      simp
    have upper : (8, ⟨4, ringStack k.vmm / 4294967296⟩) ∈
        CStruct.layout 0 after.tssEntry.fields := by
      rw [fields, initTss_entry]
      simp
    have first := segment_word fits after (k.gdtTss.getD {}) lower (by decide)
    have second := segment_word fits after (k.gdtTss.getD {}) upper (by decide)
    have small := ringStack_lt k.vmm
    refine (readLE_halves first second).trans ?_
    omega
  constructor
  · intro n lo hi
    have first := segment_beforeIst fits after (k.gdtTss.getD {}) lo hi
    have second := segment_istLow fits after (k.gdtTss.getD {}) lo hi
    rw [initTss_beforeIst] at first
    rw [initTss_istLow] at second
    exact readLE_halves first second
  · have third : (96, ⟨8, k.tssEntry.reserved3⟩) ∈ CStruct.layout 0 after.tssEntry.fields := by
      rw [fields, initTss_entry]
      simp
    have member := segment_member fits after (k.gdtTss.getD {}) third (j := 6) (n := 2) (by simp)
      (by simp)
    simpa [Mem.readLE, Kernel.ioMap, tssDescriptor, after] using member

/-! ## The limit -/

/-- The limit is 112 pages further than it may be at most. -/
theorem describeTss_limit_le (tssp : Nat) (d : TssDesc) : 462847 ≤ (describeTss tssp d).limit := by
  simp only [TssDesc.limit, describeTss, sizeofTssEntry_eq, ↓reduceIte]
  omega

/-- **The processor never reads back what the kernel wrote**: the limit is that of
113 pages. -/
theorem initTss_never_reads_back (tssp : UInt64) (k : Kernel) :
    ¬ ReadsBack (initTss tssp.toNat (loadGdt k)) tssp.toNat (ringStack k.vmm)
      (tssDescriptor tssp.toNat k) := by
  intro reads
  have large := describeTss_limit_le tssp.toNat (k.gdtTss.getD {})
  have limit := reads.limit
  rw [tssDescriptor] at limit
  omega

/-- After boot with the segment at 2 MiB. -/
theorem boot_limit : ¬ ∀ (tssp : UInt64) (k : Kernel),
    ReadsBack (initTss tssp.toNat (loadGdt k)) tssp.toNat (ringStack k.vmm)
      (tssDescriptor tssp.toNat k) := by
  intro all
  have limit := (all 0x200000 ⟨Vmm.initial fun _ => 0, {}, none, none, 0x2⟩).limit
  revert limit
  decide

end KessOS
