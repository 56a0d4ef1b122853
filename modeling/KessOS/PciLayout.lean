import KessOS.Bytes
import KessOS.Pci
import Mathlib.Data.Set.Function

/-!
# The layout of configuration space

Every field is read in halves of registers through `pci_read_word` and put
together from them.

* `pciReadWord_bytes`: a read at an offset gives the two bytes there;
* `configAddress_inj`: no two registers share an address;
* `pci_layout`: the fields lie where the standard header has them.
-/

namespace KessOS.Pci

def pciGetVendorId (c : ConfigSpace) (bus slot func : Nat) : Nat :=
  pciReadWord c bus slot func 0x0

def pciGetSubclassId (c : ConfigSpace) (bus slot func : Nat) : Nat :=
  pciReadWord c bus slot func 0xA &&& 0x00FF

def pciGetProgIf (c : ConfigSpace) (bus slot func : Nat) : Nat :=
  (pciReadWord c bus slot func 0x8 &&& 0xFF00) >>> 8

def pciGetRevisionId (c : ConfigSpace) (bus slot func : Nat) : Nat :=
  pciReadWord c bus slot func 0x8 &&& 0x00FF

def getBar0Low (c : ConfigSpace) (bus slot func : Nat) : Nat := pciReadWord c bus slot func 0x10

def getBar0High (c : ConfigSpace) (bus slot func : Nat) : Nat := pciReadWord c bus slot func 0x12

def getBar1Low (c : ConfigSpace) (bus slot func : Nat) : Nat := pciReadWord c bus slot func 0x14

def getBar1High (c : ConfigSpace) (bus slot func : Nat) : Nat := pciReadWord c bus slot func 0x16

def pciGetBar0 (c : ConfigSpace) (bus slot func : Nat) : Nat :=
  getBar0High c bus slot func <<< 16 ||| getBar0Low c bus slot func

def pciGetBar1 (c : ConfigSpace) (bus slot func : Nat) : Nat :=
  getBar1High c bus slot func <<< 16 ||| getBar1Low c bus slot func

/-- The bytes of a function's registers. -/
def ConfigSpace.bytes (c : ConfigSpace) (bus slot func : Nat) : Mem :=
  fun o => UInt8.ofNat (c.reg bus slot func (o / 4) / 256 ^ (o % 4))

/-- The fields of a function, each at its place in the header and with its width. -/
structure Layout (c : ConfigSpace) (bus slot func : Nat) : Prop where
  word : ∀ o, o < 256 →
    pciReadWord c bus slot func o = (c.bytes bus slot func).read16 (o &&& 0xFE)
  vendor : pciGetVendorId c bus slot func = (c.bytes bus slot func).read16 0x00
  device : pciGetDeviceId c bus slot func = (c.bytes bus slot func).read16 0x02
  classId : pciGetClassid c bus slot func = (c.bytes bus slot func 0x0B).toNat
  subclass : pciGetSubclassId c bus slot func = (c.bytes bus slot func 0x0A).toNat
  progIf : pciGetProgIf c bus slot func = (c.bytes bus slot func 0x09).toNat
  revision : pciGetRevisionId c bus slot func = (c.bytes bus slot func 0x08).toNat
  bar0 : pciGetBar0 c bus slot func = (c.bytes bus slot func).read32 0x10
  bar1 : pciGetBar1 c bus slot func = (c.bytes bus slot func).read32 0x14

/-- Part of a register, as bytes. -/
theorem bytes_field (c : ConfigSpace) (bus slot func i : Nat) {j n : Nat} (inside : j + n ≤ 4) :
    (c.bytes bus slot func).readLE (4 * i + j) n =
      c.reg bus slot func i / 256 ^ j % 256 ^ n := by
  rw [← Mem.readLE_digits_from]
  apply Mem.readLE_congr
  intro k hk
  have register : (4 * i + j + k) / 4 = i := by omega
  have byte : (4 * i + j + k) % 4 = j + k := by omega
  rw [ConfigSpace.bytes, register, byte]

/-- **No two registers share an address.** -/
theorem configAddress_inj {bus slot func o bus' slot' func' o' : Nat} (hb : bus < 256)
    (hs : slot < 32) (hf : func < 8) (ho : o < 256) (hb' : bus' < 256) (hs' : slot' < 32)
    (hf' : func' < 8) (ho' : o' < 256)
    (same : configAddress bus slot func o = configAddress bus' slot' func' o') :
    bus = bus' ∧ slot = slot' ∧ func = func' ∧ o / 4 = o' / 4 := by
  rw [configAddress_eq hb hs hf ho, configAddress_eq hb' hs' hf' ho'] at same
  omega

section
variable (c : ConfigSpace) {bus slot func : Nat} (hb : bus < 256) (hs : slot < 32) (hf : func < 8)
include hb hs hf

/-- **A read gives the two bytes at the even offset.** -/
theorem pciReadWord_bytes {o : Nat} (ho : o < 256) :
    pciReadWord c bus slot func o = (c.bytes bus slot func).read16 (o &&& 0xFE) := by
  have even : o &&& 0xFE = 4 * (o / 4) + o / 2 % 2 * 2 := by
    have field := Bits.and_field o 7 1
    rw [show (2 ^ 7 - 1) <<< 1 = 0xFE by decide] at field
    omega
  have half : (o &&& 2) * 8 = 8 * (o / 2 % 2 * 2) := by
    have field := Bits.and_field o 1 1
    rw [show (2 ^ 1 - 1) <<< 1 = 2 by decide] at field
    omega
  rw [pciReadWord_eq c hb hs hf ho, even, Mem.read16, bytes_field c bus slot func _ (by omega),
    half, Nat.shiftRight_eq_div_pow, Nat.pow_mul]
  rfl

/-- The two bytes of a word. -/
theorem word_bytes {o : Nat} (ho : o < 256) (even : o &&& 0xFE = o) :
    (pciReadWord c bus slot func o &&& 0xFF00) >>> 8 = (c.bytes bus slot func (o + 1)).toNat ∧
      pciReadWord c bus slot func o &&& 0x00FF = (c.bytes bus slot func o).toNat := by
  have high := (c.bytes bus slot func (o + 1)).toNat_lt
  have low := (c.bytes bus slot func o).toNat_lt
  have word : pciReadWord c bus slot func o =
      (c.bytes bus slot func o).toNat + 256 * (c.bytes bus slot func (o + 1)).toNat := by
    rw [pciReadWord_bytes c hb hs hf ho, even]
    simp only [Mem.readLE, Nat.mul_zero, Nat.add_zero]
  have upper (w : Nat) : (w &&& 0xFF00) >>> 8 = w / 2 ^ 8 % 2 ^ 8 := Bits.field_shift w 8 8
  have lower (w : Nat) : w &&& 0x00FF = w % 2 ^ 8 := Nat.and_two_pow_sub_one_eq_mod w 8
  rw [upper, lower, word]
  omega

/-- Two reads make a register. -/
theorem words_register {o : Nat} (ho : o + 2 < 256) (first : o &&& 0xFE = o)
    (second : (o + 2) &&& 0xFE = o + 2) :
    pciReadWord c bus slot func (o + 2) <<< 16 ||| pciReadWord c bus slot func o =
      (c.bytes bus slot func).read32 o := by
  have low : (c.bytes bus slot func).read16 o < 65536 := Mem.readLE_lt _ o 2
  have lower := pciReadWord_bytes c hb hs hf (show o < 256 by omega)
  have upper := pciReadWord_bytes c hb hs hf (show o + 2 < 256 by omega)
  have split : (c.bytes bus slot func).read32 o =
      (c.bytes bus slot func).read16 o + 65536 * (c.bytes bus slot func).read16 (o + 2) :=
    Mem.readLE_append (c.bytes bus slot func) o 2 2
  rw [first] at lower
  rw [second] at upper
  rw [lower, upper, Nat.shiftLeft_eq, Bits.or_low 16 (Nat.mul_mod_left _ _) low]
  omega

/-- **The getters return the fields of the header.** -/
theorem getters_layout : Layout c bus slot func where
  word := fun o ho => pciReadWord_bytes c hb hs hf ho
  vendor := pciReadWord_bytes c hb hs hf (o := 0x0) (by decide)
  device := pciReadWord_bytes c hb hs hf (o := 0x2) (by decide)
  classId := (word_bytes c hb hs hf (o := 0xA) (by decide) (by decide)).1
  subclass := (word_bytes c hb hs hf (o := 0xA) (by decide) (by decide)).2
  progIf := (word_bytes c hb hs hf (o := 0x8) (by decide) (by decide)).1
  revision := (word_bytes c hb hs hf (o := 0x8) (by decide) (by decide)).2
  bar0 := words_register c hb hs hf (o := 0x10) (by decide) (by decide) (by decide)
  bar1 := words_register c hb hs hf (o := 0x14) (by decide) (by decide) (by decide)

end

/-- The address of a register of a function. -/
def registerAddress (r : Function × Nat) : Nat :=
  configAddress r.1.1 r.1.2.1 r.1.2.2 (4 * r.2)

/-- **The accessors agree with the layout** of configuration space, for every
function, and every register has its own address. -/
theorem pci_layout (c : ConfigSpace) :
    (∀ f ∈ busFunctions 256, Layout c f.1 f.2.1 f.2.2) ∧
      Set.InjOn registerAddress {r | r.1 ∈ busFunctions 256 ∧ r.2 < 64} := by
  constructor
  · intro f listed
    obtain ⟨hb, hs, hf⟩ := mem_busFunctions.mp listed
    exact getters_layout c hb hs hf
  · rintro ⟨⟨bus, slot, func⟩, d⟩ ⟨listed, hd⟩ ⟨⟨bus', slot', func'⟩, d'⟩ ⟨listed', hd'⟩ same
    obtain ⟨hb, hs, hf⟩ := mem_busFunctions.mp listed
    obtain ⟨hb', hs', hf'⟩ := mem_busFunctions.mp listed'
    dsimp only at hb hs hf hd hb' hs' hf' hd'
    have register := configAddress_inj hb hs hf (by omega) hb' hs' hf' (by omega) same
    simp only [Prod.mk.injEq]
    omega

theorem pci_layout_last_bus :
    Layout lastBusDevice 255 0 0 ∧
      Set.InjOn registerAddress {r | r.1 ∈ busFunctions 256 ∧ r.2 < 64} :=
  ⟨(pci_layout lastBusDevice).1 (255, 0, 0) (mem_busFunctions.mpr (by decide)),
    (pci_layout lastBusDevice).2⟩

end KessOS.Pci
