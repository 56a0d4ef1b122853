import KessOS.Bits
import KessOS.MemoryMap

/-!
# The virtual memory manager

`alloc_page` hands out the largest usable segment page by page. `map_page`
walks the four levels of the tables below `pml4`, and maps every table it has
just linked by calling itself. The recursion has a fuel argument here;
`mapPageN_total` gives an amount that always suffices, and `mapPage` runs with it.
-/

namespace KessOS

/-- Where the linker put the aligned global `pml4`. The address of an object
is never `NULL`. -/
structure Image where
  pml4 : Nat
  aligned : pml4 % 4096 = 0
  nonnull : 0 < pml4
  word : pml4 < 18446744073709551616

/-- Physical memory and the allocator's two variables. `allocs` is a record of
every `alloc_page` so far, latest first: the page, or `none` when the segment
was used up. The code itself does not keep it. -/
structure Vmm where
  mem : Mem
  placement : Nat
  biggestSegment : Memdesc
  allocs : List (Option Nat)

namespace Vmm

/-- The globals before any code runs. -/
def initial (m : Mem) : Vmm where
  mem := m
  placement := 0x000000000E646000
  biggestSegment := ⟨0, 0, 0, 0, 0⟩
  allocs := []

abbrev nPages (s : Vmm) : Nat := s.biggestSegment.nPages

def pageBitPPresent : Nat := 1 <<< 0
def pageBitRwWritable : Nat := 1 <<< 1
def pageBitUsUser : Nat := 1 <<< 2
def pageAddrMask : Nat := 0x000ffffffffff000
def gb : Nat := 0x40000000

def flags : Nat := pageBitPPresent ||| pageBitRwWritable ||| pageBitUsUser

def present (entry : Nat) : Bool := entry &&& pageBitPPresent != 0

/-! ## The allocator -/

def setPlacement (s : Vmm) (meminfo : Meminfo) : Vmm :=
  let biggestSegment := largestSegment s.mem meminfo s.biggestSegment
  { s with biggestSegment := biggestSegment, placement := biggestSegment.physAddr }

/-- The page handed out, `0` for `NULL`, and the new state. -/
def allocPage (s : Vmm) : Nat × Vmm :=
  if s.nPages = 0 then
    (0, { s with allocs := none :: s.allocs })
  else
    (s.placement,
      { s with
        placement := (s.placement + 4096) % 18446744073709551616
        biggestSegment := { s.biggestSegment with nPages := s.nPages - 1 }
        allocs := some s.placement :: s.allocs })

/-! ## Mapping a page -/

/-- The three table levels differ in what they pass to `memzero`: the first
masks the address of the new table, the other two do not. -/
def clearAddr (masked : Bool) (page : Nat) : Nat :=
  if masked then page &&& pageAddrMask else page

/-- Allocate a table, clear it and enter it at `entry`. -/
def linkTable (masked : Bool) (entry : Nat) (s : Vmm) : Nat × Vmm :=
  let (page, s) := s.allocPage
  let cleared := memzero s.mem (clearAddr masked page) 4096
  (page, { s with mem := cleared.write64 entry (page &&& pageAddrMask ||| flags) })

/-- One level: make sure entry `idx` of `table` is present, mapping the table
just linked, and follow it. -/
def enter (again : Vmm → Nat → Option Vmm) (masked : Bool) (table idx : Nat) (s : Vmm) :
    Option (Vmm × Nat) :=
  let entry := table + 8 * idx
  let linked :=
    if present (s.mem.read64 entry) then some s
    else
      let (page, s) := s.linkTable masked entry
      again s page
  linked.map fun s => (s, s.mem.read64 entry &&& pageAddrMask)

/-- The last level: an entry that is already present stays. -/
def mapLeaf (pt idx logical : Nat) (s : Vmm) : Vmm :=
  let entry := pt + 8 * idx
  if present (s.mem.read64 entry) then s
  else { s with mem := s.mem.write64 entry (logical &&& pageAddrMask ||| flags) }

def pml4Idx (logical : Nat) : Nat := logical >>> 39 &&& 0x1ff
def pdpIdx (logical : Nat) : Nat := logical >>> 30 &&& 0x1ff
def pdIdx (logical : Nat) : Nat := logical >>> 21 &&& 0x1ff
def ptIdx (logical : Nat) : Nat := logical >>> 12 &&& 0x1ff

variable (k : Image)

def mapPageBody (again : Vmm → Nat → Option Vmm) (s : Vmm) (logical : Nat) : Option Vmm :=
  (s.enter again true k.pml4 (pml4Idx logical)).bind fun (s, pdpt) =>
    (s.enter again false pdpt (pdpIdx logical)).bind fun (s, pdt) =>
      (s.enter again false pdt (pdIdx logical)).bind fun (s, pt) =>
        some (s.mapLeaf pt (ptIdx logical) logical)

/-- `map_page` with at most `fuel` nested calls. -/
def mapPageN : Nat → Vmm → Nat → Option Vmm
  | 0, _, _ => none
  | fuel + 1, s, logical => s.mapPageBody k (mapPageN fuel) logical

def mapPage (s : Vmm) (logical : Nat) : Vmm :=
  (mapPageN k (s.nPages + 4) s logical).getD s

def mapPages (s : Vmm) (as : List Nat) : Vmm := as.foldl (fun s a => s.mapPage k a) s

/-- What `init_vmm` does before its loop. -/
def startVmm (s : Vmm) (meminfo : Meminfo) : Vmm :=
  let s := s.setPlacement meminfo
  { s with mem := memzero s.mem k.pml4 4096 }

/-- The page addresses below `GB*6`, in the order of the loop. -/
def initPages : List Nat := (List.range (gb * 6 / 4096)).map fun i => 4096 * i

def initVmm (s : Vmm) (meminfo : Meminfo) : Vmm :=
  (s.startVmm k meminfo).mapPages k initPages

/-! ## Arithmetic of entries and indices -/

theorem present_iff (w : Nat) : present w = true ↔ w % 2 = 1 := by
  have : w &&& 1 = w % 2 := Nat.and_two_pow_sub_one_eq_mod w 1
  simp only [present, pageBitPPresent, Nat.shiftLeft_zero, this, bne_iff_ne]
  omega

theorem not_present_zero : present 0 = false := by decide

theorem mask_eq (w : Nat) : w &&& pageAddrMask = w / 4096 % 1099511627776 * 4096 :=
  Bits.and_field w 40 12

theorem mask_page {p : Nat} (aligned : p % 4096 = 0) (small : p < 4503599627370496) :
    p &&& pageAddrMask = p := by
  rw [mask_eq]
  omega

theorem mask_aligned (w : Nat) : (w &&& pageAddrMask) % 4096 = 0 := by
  rw [mask_eq]
  omega

theorem mask_lt (w : Nat) : w &&& pageAddrMask < 4503599627370496 := by
  rw [mask_eq]
  omega

theorem flags_eq : flags = 7 := by decide

theorem entry_eq (w : Nat) : w &&& pageAddrMask ||| flags = (w &&& pageAddrMask) + 7 := by
  rw [flags_eq]
  have := mask_aligned w
  exact Bits.or_low 3 (by omega) (by omega)

theorem present_entry (w : Nat) : present (w &&& pageAddrMask ||| flags) = true := by
  have := mask_aligned w
  rw [present_iff, entry_eq]
  omega

theorem pml4Idx_eq (a : Nat) : pml4Idx a = a / 549755813888 % 512 := Bits.shift_and a 39 9
theorem pdpIdx_eq (a : Nat) : pdpIdx a = a / 1073741824 % 512 := Bits.shift_and a 30 9
theorem pdIdx_eq (a : Nat) : pdIdx a = a / 2097152 % 512 := Bits.shift_and a 21 9
theorem ptIdx_eq (a : Nat) : ptIdx a = a / 4096 % 512 := Bits.shift_and a 12 9

end Vmm

end KessOS
