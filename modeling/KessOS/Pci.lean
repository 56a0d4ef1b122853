import Mathlib.Data.List.Nodup
import Mathlib.Data.List.Perm.Basic
import Mathlib.Data.List.ProdSigma
import KessOS.Bits

/-!
# The enumeration of PCI functions

`pci_enumerate_and_log` reads the vendor of every bus, slot and function through
the two configuration ports and logs those that answer.

* `pciReadWord_eq`: a read gives the half of the register it asks for;
* `enumerate_run`: what a run over a list of functions logs and counts;
* `complete_iff`: the loop over the buses ends before bus 255.
-/

namespace KessOS.Pci

/-! ## Configuration space -/

/-- The 32-bit registers of every bus, slot and function. -/
structure ConfigSpace where
  reg : Nat → Nat → Nat → Nat → Nat
  word : ∀ bus slot func i, reg bus slot func i < 4294967296

/-- What the data port gives once `address` went to the address port: bit 31
enables the access, below it are bus, slot, function and register. -/
def ConfigSpace.data (c : ConfigSpace) (address : Nat) : Nat :=
  if address / 2 ^ 31 % 2 = 1 then
    c.reg (address / 2 ^ 16 % 256) (address / 2 ^ 11 % 32) (address / 2 ^ 8 % 8)
      (address / 4 % 64)
  else 4294967295

def configAddress (bus slot func offset : Nat) : Nat :=
  bus <<< 16 ||| slot <<< 11 ||| func <<< 8 ||| (offset &&& 0xFC) ||| 0x80000000

/-- The arguments are converted to `uint8_t`. -/
def pciReadWord (c : ConfigSpace) (bus slot func offset : Nat) : Nat :=
  let address := configAddress (bus % 256) (slot % 256) (func % 256) (offset % 256)
  c.data address >>> ((offset &&& 2) * 8) &&& 0xFFFF

def vendorIsValid (vendorId : Nat) : Bool := vendorId != 0xFFFF

def pciGetDeviceId (c : ConfigSpace) (bus slot func : Nat) : Nat :=
  pciReadWord c bus slot func 0x2

def pciGetClassid (c : ConfigSpace) (bus slot func : Nat) : Nat :=
  (pciReadWord c bus slot func 0xA &&& 0xFF00) >>> 8

def baseClassTypes : List String :=
  ["NOT_FINALIZED", "MASS_STORAGE_CONTROLLER", "NETWORK_CONTROLLER", "DISPLAY_CONTROLLER",
    "MULTI_MEDIA_DEVICE", "MEMORY_CONTROLLER", "BRIDGE_DEVICE", "SCC",
    "BASE_SYSTEM_PERIPHERALS", "INPUT_DEVICES", "DOCKING_STATIONS", "PROCESSORS",
    "SERIAL_BUS_CONTROLLERS", "WIRELESS_CONTROLLER", "INTELLIGENT_IO_CONTROLLER",
    "SATELLITE_COMMUNICATION_CONTROLLERS", "ENCRYPTION/DECRYPTION CONTROLLERS",
    "DASP_CONTROLLER", "PROCESSING_ACCELERATORS", "NE", "RESERVED", "INVALID"]

/-! ## The enumeration -/

/-- A bus, a slot and a function. -/
abbrev Function := Nat × Nat × Nat

/-- What appears on the screen, in order. The line of a device does not show
its function; it is kept here to tell the lines apart. -/
inductive Event where
  | clearScreen
  | device (bus slot func deviceId : Nat) (baseclassType : String)
  | found (deviceCount : Nat)

structure Enumeration where
  deviceCount : Nat
  tmp : Nat
  events : List Event

/-- The screen is cleared after every twenty devices. -/
def Enumeration.page (e : Enumeration) : Enumeration :=
  if e.tmp = 20 then { e with tmp := 0, events := e.events ++ [.clearScreen] } else e

def baseclassType (c : ConfigSpace) (bus slot func : Nat) : String :=
  if pciGetClassid c bus slot func > 0x13 then "RESERVED"
  else baseClassTypes.getD (pciGetClassid c bus slot func) ""

def Enumeration.visit (c : ConfigSpace) (bus slot : Nat) (e : Enumeration) (func : Nat) :
    Enumeration :=
  let e := e.page
  if vendorIsValid (pciReadWord c bus slot func 0) then
    { deviceCount := e.deviceCount + 1
      tmp := e.tmp + 1
      events := e.events ++
        [.device bus slot func (pciGetDeviceId c bus slot func) (baseclassType c bus slot func)] }
  else e

def enumerate (c : ConfigSpace) : Enumeration :=
  (List.range 255).foldl (fun e bus =>
    (List.range 32).foldl (fun e slot =>
      (List.range 8).foldl (fun e func => e.visit c bus slot func) e) e) ⟨0, 0, []⟩

def pciEnumerateAndLog (c : ConfigSpace) : List Event :=
  (enumerate c).events ++ [.found (enumerate c).deviceCount]

/-! ## What is asked of it -/

def Event.function : Event → Option Function
  | .device bus slot func _ _ => some (bus, slot, func)
  | _ => none

/-- The functions that have a line, in order. -/
def logged (events : List Event) : List Function := events.filterMap Event.function

def ConfigSpace.vendorId (c : ConfigSpace) (f : Function) : Nat :=
  c.reg f.1 f.2.1 f.2.2 0 % 65536

def ConfigSpace.answers (c : ConfigSpace) (f : Function) : Bool := c.vendorId f != 0xFFFF

/-- Every function of the first `n` buses, once. -/
def busFunctions (n : Nat) : List Function := List.range n ×ˢ List.range 32 ×ˢ List.range 8

/-- The functions that are there. -/
def ConfigSpace.functions (c : ConfigSpace) : List Function := (busFunctions 256).filter c.answers

structure Complete (c : ConfigSpace) : Prop where
  once : ∀ f ∈ c.functions, (logged (pciEnumerateAndLog c)).count f = 1
  only : ∀ f ∈ logged (pciEnumerateAndLog c), f ∈ c.functions
  total : (pciEnumerateAndLog c).getLast? = some (.found c.functions.length)

/-! ## Reads -/

theorem configAddress_eq {bus slot func offset : Nat} (hb : bus < 256) (hs : slot < 32)
    (hf : func < 8) (ho : offset < 256) : configAddress bus slot func offset =
      2147483648 + (bus * 65536 + slot * 2048 + func * 256 + offset / 4 * 4) := by
  have register : offset &&& 0xFC = offset / 4 * 4 := by
    have := Bits.and_field offset 6 2
    rw [show (2 ^ 6 - 1) <<< 2 = 0xFC by decide] at this
    omega
  have slots : bus <<< 16 ||| slot <<< 11 = bus * 65536 + slot * 2048 := by
    rw [Nat.shiftLeft_eq, Nat.shiftLeft_eq, Bits.or_low 16 (by omega) (by omega)]
  have funcs : bus * 65536 + slot * 2048 ||| func <<< 8 =
      bus * 65536 + slot * 2048 + func * 256 := by
    rw [Nat.shiftLeft_eq, Bits.or_low 11 (by omega) (by omega)]
  have registers : bus * 65536 + slot * 2048 + func * 256 ||| offset / 4 * 4 =
      bus * 65536 + slot * 2048 + func * 256 + offset / 4 * 4 :=
    Bits.or_low 8 (by omega) (by omega)
  unfold configAddress
  rw [register, slots, funcs, registers, Nat.or_comm]
  exact Bits.or_low 31 (by decide) (by omega)

/-- **A read gives the addressed half of the addressed register.** -/
theorem pciReadWord_eq (c : ConfigSpace) {bus slot func offset : Nat} (hb : bus < 256)
    (hs : slot < 32) (hf : func < 8) (ho : offset < 256) : pciReadWord c bus slot func offset =
      c.reg bus slot func (offset / 4) >>> ((offset &&& 2) * 8) % 65536 := by
  have address := configAddress_eq hb hs hf ho
  simp only [pciReadWord]
  rw [Nat.mod_eq_of_lt hb, Nat.mod_eq_of_lt (show slot < 256 by omega),
    Nat.mod_eq_of_lt (show func < 256 by omega), Nat.mod_eq_of_lt ho, address,
    ConfigSpace.data, if_pos (by omega)]
  have low (w : Nat) : w &&& 0xFFFF = w % 65536 := Nat.and_two_pow_sub_one_eq_mod w 16
  generalize at_bus : (2147483648 + (bus * 65536 + slot * 2048 + func * 256 + offset / 4 * 4)) /
    2 ^ 16 % 256 = bus'
  generalize at_slot : (2147483648 + (bus * 65536 + slot * 2048 + func * 256 + offset / 4 * 4)) /
    2 ^ 11 % 32 = slot'
  generalize at_func : (2147483648 + (bus * 65536 + slot * 2048 + func * 256 + offset / 4 * 4)) /
    2 ^ 8 % 8 = func'
  generalize at_reg : (2147483648 + (bus * 65536 + slot * 2048 + func * 256 + offset / 4 * 4)) /
    4 % 64 = reg'
  obtain rfl : bus' = bus := by omega
  obtain rfl : slot' = slot := by omega
  obtain rfl : func' = func := by omega
  obtain rfl : reg' = offset / 4 := by omega
  exact low _

theorem vendorIsValid_eq (c : ConfigSpace) {bus slot func : Nat} (hb : bus < 256)
    (hs : slot < 32) (hf : func < 8) :
    vendorIsValid (pciReadWord c bus slot func 0) = c.answers (bus, slot, func) := by
  rw [pciReadWord_eq c hb hs hf (by decide)]
  rfl

/-! ## Runs -/

theorem mem_busFunctions {n : Nat} {f : Function} :
    f ∈ busFunctions n ↔ f.1 < n ∧ f.2.1 < 32 ∧ f.2.2 < 8 := by
  obtain ⟨bus, slot, func⟩ := f
  simp only [busFunctions, List.mem_product, List.mem_range]

theorem busFunctions_nodup (n : Nat) : (busFunctions n).Nodup :=
  List.nodup_range.product (List.nodup_range.product List.nodup_range)

theorem enumerate_eq (c : ConfigSpace) : enumerate c =
    (busFunctions 255).foldl (fun e f => e.visit c f.1 f.2.1 f.2.2) ⟨0, 0, []⟩ := by
  simp only [enumerate, busFunctions, SProd.sprod, List.product, List.foldl_flatMap, List.foldl_map]

theorem page_count (e : Enumeration) :
    e.page.deviceCount = e.deviceCount ∧ logged e.page.events = logged e.events := by
  unfold Enumeration.page
  split
  · exact ⟨rfl, by simp [logged, Event.function]⟩
  · exact ⟨rfl, rfl⟩

/-- One function adds its line when it is there. -/
theorem visit_spec (c : ConfigSpace) {f : Function} (inside : f.1 < 256 ∧ f.2.1 < 32 ∧ f.2.2 < 8)
    (e : Enumeration) :
    (e.visit c f.1 f.2.1 f.2.2).deviceCount = e.deviceCount + ([f].filter c.answers).length ∧
      logged (e.visit c f.1 f.2.1 f.2.2).events = logged e.events ++ [f].filter c.answers := by
  obtain ⟨count, lines⟩ := page_count e
  unfold Enumeration.visit
  dsimp only
  rw [vendorIsValid_eq c inside.1 inside.2.1 inside.2.2]
  cases there : c.answers f with
  | true =>
    have kept : [f].filter c.answers = [f] := List.filter_eq_self.mpr (by simp [there])
    rw [if_pos rfl, kept]
    simp only [count, ← lines]
    simp [logged, Event.function]
  | false =>
    have dropped : [f].filter c.answers = [] := List.filter_eq_nil_iff.mpr (by simp [there])
    rw [if_neg (by simp), dropped]
    simp [count, lines]

/-- **A run logs and counts the functions that are there.** -/
theorem enumerate_run (c : ConfigSpace) (fs : List Function)
    (inside : ∀ f ∈ fs, f.1 < 256 ∧ f.2.1 < 32 ∧ f.2.2 < 8) (e : Enumeration) :
    (fs.foldl (fun e f => e.visit c f.1 f.2.1 f.2.2) e).deviceCount =
        e.deviceCount + (fs.filter c.answers).length ∧
      logged (fs.foldl (fun e f => e.visit c f.1 f.2.1 f.2.2) e).events =
        logged e.events ++ fs.filter c.answers := by
  induction fs generalizing e with
  | nil => simp
  | cons f fs ih =>
    obtain ⟨count, lines⟩ := visit_spec c (inside f List.mem_cons_self) e
    obtain ⟨counts, rest⟩ := ih (fun g hg => inside g (List.mem_cons_of_mem f hg))
      (e.visit c f.1 f.2.1 f.2.2)
    have split : (f :: fs).filter c.answers = [f].filter c.answers ++ fs.filter c.answers :=
      List.filter_append [f] fs
    rw [List.foldl_cons, counts, rest, count, lines, split, List.length_append,
      List.append_assoc, Nat.add_assoc]
    exact ⟨rfl, rfl⟩

/-- The lines are those of the functions on the first 255 buses. -/
theorem enumerate_lines (c : ConfigSpace) :
    (enumerate c).deviceCount = ((busFunctions 255).filter c.answers).length ∧
      logged (pciEnumerateAndLog c) = (busFunctions 255).filter c.answers := by
  obtain ⟨count, lines⟩ := enumerate_run c (busFunctions 255)
    (fun f hf => by have := mem_busFunctions.mp hf; omega) ⟨0, 0, []⟩
  rw [← enumerate_eq] at count lines
  refine ⟨by rw [count, Nat.zero_add], ?_⟩
  have ending : logged (pciEnumerateAndLog c) = logged (enumerate c).events := by
    simp [pciEnumerateAndLog, logged, Event.function]
  rw [ending, lines]
  rfl

theorem mem_logged (c : ConfigSpace) (f : Function) : f ∈ logged (pciEnumerateAndLog c) ↔
    f.1 < 255 ∧ f.2.1 < 32 ∧ f.2.2 < 8 ∧ c.answers f = true := by
  rw [(enumerate_lines c).2, List.mem_filter, mem_busFunctions]
  simp only [and_assoc]

theorem mem_functions (c : ConfigSpace) (f : Function) : f ∈ c.functions ↔
    f.1 < 256 ∧ f.2.1 < 32 ∧ f.2.2 < 8 ∧ c.answers f = true := by
  rw [ConfigSpace.functions, List.mem_filter, mem_busFunctions]
  simp only [and_assoc]

/-! ## Bus 255 -/

/-- Nothing answers on the last bus. -/
def LastBusEmpty (c : ConfigSpace) : Prop :=
  ∀ slot func, slot < 32 → func < 8 → c.answers (255, slot, func) = false

/-- A function on the last bus is missed. -/
theorem last_bus_missed (c : ConfigSpace) (slot func : Nat) :
    (logged (pciEnumerateAndLog c)).count (255, slot, func) = 0 := by
  apply List.count_eq_zero.mpr
  intro member
  exact Nat.lt_irrefl 255 ((mem_logged c _).mp member).1

theorem Complete.last_bus {c : ConfigSpace} (complete : Complete c) : LastBusEmpty c := by
  intro slot func hs hf
  cases there : c.answers (255, slot, func) with
  | false => rfl
  | true =>
    have member : ((255, slot, func) : Function) ∈ c.functions := by
      rw [mem_functions]
      exact ⟨Nat.lt_succ_self 255, hs, hf, there⟩
    have once := complete.once _ member
    rw [last_bus_missed] at once
    cases once

/-- **The enumeration is complete exactly when nothing answers on bus 255.** -/
theorem complete_iff (c : ConfigSpace) : Complete c ↔ LastBusEmpty c := by
  constructor
  · exact Complete.last_bus
  · intro empty
    obtain ⟨count, lines⟩ := enumerate_lines c
    have same (f : Function) : f ∈ logged (pciEnumerateAndLog c) ↔ f ∈ c.functions := by
      rw [mem_logged, mem_functions]
      constructor
      · rintro ⟨hb, rest⟩
        exact ⟨by omega, rest⟩
      · rintro ⟨hb, hs, hf, there⟩
        refine ⟨?_, hs, hf, there⟩
        by_contra last
        obtain ⟨bus, slot, func⟩ := f
        obtain rfl : bus = 255 := by
          dsimp only at hb last
          omega
        rw [empty slot func hs hf] at there
        cases there
    have nodup : (logged (pciEnumerateAndLog c)).Nodup := by
      rw [lines]
      exact (busFunctions_nodup 255).filter _
    have all : (logged (pciEnumerateAndLog c)).Perm c.functions :=
      (List.perm_ext_iff_of_nodup nodup ((busFunctions_nodup 256).filter _)).mpr same
    constructor
    · intro f hf
      exact List.count_eq_one_of_mem nodup ((same f).mpr hf)
    · intro f hf
      exact (same f).mp hf
    · have last : (pciEnumerateAndLog c).getLast? = some (.found (enumerate c).deviceCount) :=
        List.getLast?_concat
      rw [last, count, ← lines, all.length_eq]

/-- A single function, on the last bus. -/
def lastBusDevice : ConfigSpace where
  reg := fun bus slot func _ => if bus = 255 ∧ slot = 0 ∧ func = 0 then 0x12378086 else 0xFFFFFFFF
  word := by
    intro bus slot func _
    split <;> decide

theorem lastBusDevice_incomplete : ¬ Complete lastBusDevice := by
  intro complete
  have empty := complete.last_bus 0 0 (by decide) (by decide)
  revert empty
  decide

end KessOS.Pci
