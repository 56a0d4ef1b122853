import KessOS.KernelInit

/-!
# The interrupt descriptor table

`set_idt_vec` splits the address of a handler over three members of a packed
struct. The processor reads the gate of a vector from the sixteen bytes at its
place in the table.

* `Gate.read`: the processor's layout;
* `registered_idt`: the entries after any number of calls;
* `idt_faithful`: each gate is the one of the last call for its vector.
-/

namespace KessOS

open CStruct (Field byteIn packed)

/-- The members in the order and with the types of `struct IDTVector`. -/
def IdtVector.fields (e : IdtVector) : List Field :=
  [⟨2, e.isrLow16⟩, ⟨2, e.kernelCs⟩, ⟨1, e.ist⟩, ⟨1, e.attr⟩, ⟨2, e.isrMid16⟩,
    ⟨4, e.isrHigh32⟩, ⟨4, e.reserved⟩]

/-- The bytes of the array, from its first. -/
def idtBytes (idt : Nat → IdtVector) : Mem :=
  fun x => byteIn (packed 0 (idt (x / 16)).fields) (x % 16)

/-! ## The processor's gates -/

structure Gate where
  offset : Nat
  selector : Nat
  ist : Nat
  attr : Nat
  reserved : Nat
  deriving DecidableEq

/-- Sixteen bytes as a gate of 64-bit mode. -/
def Gate.read (m : Mem) (a : Nat) : Gate where
  offset := m.read16 a + 65536 * m.read16 (a + 6) + 4294967296 * m.read32 (a + 8)
  selector := m.read16 (a + 2)
  ist := m.readLE (a + 4) 1
  attr := m.readLE (a + 5) 1
  reserved := m.read32 (a + 12)

/-- Bit 7 of the attributes is the present bit. -/
def Gate.present (g : Gate) : Bool := g.attr.testBit 7

/-- The gate an entry stands for. -/
def IdtVector.gate (e : IdtVector) : Gate where
  offset := e.isrLow16 % 65536 + 65536 * (e.isrMid16 % 65536) +
    4294967296 * (e.isrHigh32 % 4294967296)
  selector := e.kernelCs % 65536
  ist := e.ist % 256
  attr := e.attr % 256
  reserved := e.reserved % 4294967296

theorem idtBytes_readLE (idt : Nat → IdtVector) (v : Nat) {o n : Nat} (inside : o + n ≤ 16) :
    (idtBytes idt).readLE (16 * v + o) n =
      Mem.readLE (byteIn (packed 0 (idt v).fields)) o n := by
  apply Mem.readLE_congr
  intro i hi
  have entry : (16 * v + o + i) / 16 = v := by omega
  have place : (16 * v + o + i) % 16 = o + i := by omega
  rw [idtBytes, entry, place]

/-- A member of an entry, read from the table. -/
theorem idtBytes_member (idt : Nat → IdtVector) (v : Nat) {o : Nat} {f : Field}
    (listed : (o, f) ∈ packed 0 (idt v).fields) (inside : o + f.size ≤ 16) :
    (idtBytes idt).readLE (16 * v + o) f.size = f.value % 256 ^ f.size := by
  rw [idtBytes_readLE idt v inside]
  have member := CStruct.readLE_member (CStruct.packed_ordered 0 (idt v).fields) listed
    (show 0 + f.size ≤ f.size by omega)
  rwa [Nat.pow_zero, Nat.div_one, Nat.add_zero] at member

/-- **The processor reads the entries.** -/
theorem gate_read (idt : Nat → IdtVector) (v : Nat) :
    Gate.read (idtBytes idt) (16 * v) = (idt v).gate := by
  have member {o : Nat} {f : Field} := idtBytes_member idt v (o := o) (f := f)
  have low := member (o := 0) (f := ⟨2, (idt v).isrLow16⟩) (by simp [IdtVector.fields, packed])
    (by simp)
  have selector := member (o := 2) (f := ⟨2, (idt v).kernelCs⟩)
    (by simp [IdtVector.fields, packed]) (by simp)
  have ist := member (o := 4) (f := ⟨1, (idt v).ist⟩) (by simp [IdtVector.fields, packed])
    (by simp)
  have attr := member (o := 5) (f := ⟨1, (idt v).attr⟩) (by simp [IdtVector.fields, packed])
    (by simp)
  have mid := member (o := 6) (f := ⟨2, (idt v).isrMid16⟩) (by simp [IdtVector.fields, packed])
    (by simp)
  have high := member (o := 8) (f := ⟨4, (idt v).isrHigh32⟩) (by simp [IdtVector.fields, packed])
    (by simp)
  have reserved := member (o := 12) (f := ⟨4, (idt v).reserved⟩)
    (by simp [IdtVector.fields, packed]) (by simp)
  dsimp only at low selector ist attr mid high reserved
  rw [Nat.add_zero] at low
  rw [Gate.read, Mem.read16, Mem.read16, Mem.read16, Mem.read32, Mem.read32, low, selector, ist,
    attr, mid, high, reserved]
  rfl

/-! ## Registrations -/

/-- The arguments of a call of `set_idt_vec`. -/
structure Registration where
  vec : UInt8
  isr : UInt64
  flags : Int32

def Registration.apply (s : Machine) (r : Registration) : Machine :=
  s.setIdtVec r.vec.toNat r.isr.toNat (u32 r.flags.toInt)

/-- The machine after some calls, from the zeroed table. -/
def registered (m : Mem) (rflags : Nat) (calls : List Registration) : Machine :=
  calls.foldl Registration.apply (Machine.atStart m rflags)

/-- The gate a call asks for: the handler, selector 8, no stack of its own. -/
def Registration.gate (r : Registration) : Gate :=
  ⟨r.isr.toNat, 0x08, 0, u32 r.flags.toInt % 256, 0⟩

def emptyGate : Gate := ⟨0, 0, 0, 0, 0⟩

/-- The last call for a vector, if any. -/
def lastCall (v : UInt8) (calls : List Registration) : Option Registration :=
  (calls.filter (·.vec = v)).getLast?

theorem lastCall_append (v : UInt8) (calls : List Registration) (r : Registration) :
    lastCall v (calls ++ [r]) = if r.vec = v then some r else lastCall v calls := by
  rw [lastCall, List.filter_append]
  by_cases same : r.vec = v
  · simp [same]
  · simp [same, lastCall]

/-- The address comes back from its three parts. -/
theorem setIdtVec_gate (r : Registration) (s : Machine) :
    ((r.apply s).idt r.vec.toNat).gate = r.gate := by
  have word := r.isr.toNat_lt
  have low : r.isr.toNat &&& 0xFFFF = r.isr.toNat % 65536 :=
    Nat.and_two_pow_sub_one_eq_mod r.isr.toNat 16
  have mid : r.isr.toNat >>> 16 &&& 0xFFFF = r.isr.toNat / 65536 % 65536 :=
    Bits.shift_and r.isr.toNat 16 16
  have high : r.isr.toNat >>> 32 &&& 0xFFFFFFFF = r.isr.toNat / 4294967296 % 4294967296 :=
    Bits.shift_and r.isr.toNat 32 32
  simp only [Registration.apply, Machine.setIdtVec, ↓reduceIte, IdtVector.gate, Registration.gate,
    low, mid, high, Gate.mk.injEq, Nat.mod_mod, and_true]
  omega

theorem setIdtVec_other (r : Registration) (s : Machine) {v : UInt8} (other : r.vec ≠ v) :
    (r.apply s).idt v.toNat = s.idt v.toNat := by
  have apart : v.toNat ≠ r.vec.toNat := fun same => other (UInt8.toNat_inj.mp same.symm)
  simp only [Registration.apply, Machine.setIdtVec, apart, ↓reduceIte]

/-- **The entries after a run of calls.** -/
theorem registered_idt (m : Mem) (rflags : Nat) (calls : List Registration) (v : UInt8) :
    ((registered m rflags calls).idt v.toNat).gate =
      ((lastCall v calls).map Registration.gate).getD emptyGate ∧
    (lastCall v calls = none →
      (registered m rflags calls).idt v.toNat = ⟨0, 0, 0, 0, 0, 0, 0⟩) := by
  induction calls using List.reverseRecOn with
  | nil => exact ⟨rfl, fun _ => rfl⟩
  | append_singleton calls r ih =>
    have run : registered m rflags (calls ++ [r]) = r.apply (registered m rflags calls) := by
      rw [registered, List.foldl_append]
      rfl
    rw [run, lastCall_append]
    by_cases same : r.vec = v
    · subst same
      rw [if_pos rfl]
      exact ⟨setIdtVec_gate r _, fun none => absurd none (Option.some_ne_none r)⟩
    · rw [if_neg same, setIdtVec_other r _ same]
      exact ih

/-- A zero entry is sixteen zero bytes. -/
theorem idtBytes_zero {idt : Nat → IdtVector} {v : Nat} (zero : idt v = ⟨0, 0, 0, 0, 0, 0, 0⟩)
    {k : Nat} (hk : k < 16) : idtBytes idt (16 * v + k) = 0 := by
  have entry : (16 * v + k) / 16 = v := by omega
  rw [idtBytes, entry, zero]
  have bytes : ∀ i, i < 16 → byteIn (packed 0 (IdtVector.fields ⟨0, 0, 0, 0, 0, 0, 0⟩)) i = 0 := by
    decide
  exact bytes _ (Nat.mod_lt _ (by decide))

/-- **The table is a faithful store**: each vector has the gate of its last call,
and without one sixteen zero bytes, which are no gate. -/
theorem idt_faithful (m : Mem) (rflags : Nat) (calls : List Registration) (v : UInt8) :
    match lastCall v calls with
    | some r => Gate.read (idtBytes (registered m rflags calls).idt) (16 * v.toNat) = r.gate
    | none => (∀ k : Fin 16, idtBytes (registered m rflags calls).idt (16 * v.toNat + k) = 0) ∧
        (Gate.read (idtBytes (registered m rflags calls).idt) (16 * v.toNat)).present = false := by
  obtain ⟨gate, empty⟩ := registered_idt m rflags calls v
  rw [gate_read, gate]
  cases last : lastCall v calls with
  | some r => rfl
  | none =>
    constructor
    · intro k
      exact idtBytes_zero (empty last) k.isLt
    · rfl

end KessOS
