import KessOS.MemoryMap

/-!
# The memory map is handed to the kernel

`efi_main` asks for the size of the memory map, allocates a buffer of just that
size and asks for the map. The allocation can itself add to the map, and no
status is looked at.

* `getMemoryMap`: the rules of the firmware;
* `takeMap_eq`: the variables after the three calls;
* `handoff_iff`: the kernel gets a map exactly when it still fits.
-/

namespace KessOS.Bootloader

/-- The firmware's memory map at some moment. -/
structure MapState where
  size : Nat
  key : Nat
  descriptorSize : Nat

/-- The map before and after `AllocatePool`, and the pointer that call gives,
`0` when it fails. When the buffer is `NULL` and the size large enough, the
call fails too; `overwrites` says whether it stores the size then. -/
structure Firmware where
  before : MapState
  after : MapState
  pool : Nat
  overwrites : Bool

/-- A buffer that `GetMemoryMap` has filled, and with what. -/
structure Filled where
  buffer : Nat
  capacity : Nat
  map : MapState

/-- The variables of `efi_main`, and a record of the buffer filled. -/
structure Locals where
  map : Nat
  mapSize : Nat
  mapKey : Nat
  descriptorSize : Nat
  filled : Option Filled

/-- Whether the call succeeds, and what it leaves. Of the buffer, `capacity`
bytes were allocated. -/
def getMemoryMap (overwrites : Bool) (current : MapState) (capacity : Nat) (s : Locals) :
    Bool × Locals :=
  if s.mapSize < current.size then (false, { s with mapSize := current.size })
  else if s.map = 0 then
    (false, if overwrites then { s with mapSize := current.size } else s)
  else
    (true,
      { s with
        mapSize := current.size
        mapKey := current.key
        descriptorSize := current.descriptorSize
        filled := some ⟨s.map, capacity, current⟩ })

/-- The three calls, their statuses ignored. -/
def takeMap (fw : Firmware) (s : Locals) : Locals :=
  let s := (getMemoryMap fw.overwrites fw.before 0 s).2
  let capacity := s.mapSize
  let s := { s with map := fw.pool }
  (getMemoryMap fw.overwrites fw.after capacity s).2

/-- Whether boot services were exited, and what `kernel_entry` was called with. -/
structure Handoff where
  exited : Bool
  entered : Option Meminfo
  filled : Option Filled

/-- From the memory map to the kernel. The variables hold whatever was on the
stack; `ExitBootServices` wants the current key. -/
def handOff (fw : Firmware) (mapSize mapKey descriptorSize font : Nat) : Handoff :=
  let s := takeMap fw ⟨0, mapSize, mapKey, descriptorSize, none⟩
  let memInfo : Meminfo := ⟨s.map, s.mapSize, s.descriptorSize⟩
  if font = 0 then { exited := false, entered := none, filled := s.filled }
  else { exited := s.mapKey == fw.after.key, entered := some memInfo, filled := s.filled }

/-! ## What is asked of it -/

/-- `memInfo` is what `GetMemoryMap` wrote, into a buffer that holds it. -/
structure Describes (w : Filled) (memInfo : Meminfo) : Prop where
  buffer : memInfo.mMap = w.buffer
  size : memInfo.mSize = w.map.size
  stride : memInfo.mDescriptorSize = w.map.descriptorSize
  room : memInfo.mSize ≤ w.capacity

/-- The kernel is entered only with boot services exited and a valid map. -/
def Handoff.Valid (h : Handoff) : Prop :=
  ∀ memInfo, h.entered = some memInfo →
    h.exited = true ∧ ∃ w, h.filled = some w ∧ Describes w memInfo

/-- The size of the buffer that `efi_main` asks for. -/
def requested (fw : Firmware) (mapSize : Nat) : Nat :=
  if mapSize < fw.before.size ∨ fw.overwrites = true then fw.before.size else mapSize

/-- The buffer was allocated, and the map as it is then fits into it. -/
def StillFits (fw : Firmware) (mapSize : Nat) : Prop :=
  fw.pool ≠ 0 ∧ fw.after.size ≤ requested fw mapSize

/-! ## The three calls -/

/-- The first call, without a buffer, leaves the size to ask for. -/
theorem firstCall_eq (fw : Firmware) (mapSize mapKey descriptorSize : Nat) :
    (getMemoryMap fw.overwrites fw.before 0 ⟨0, mapSize, mapKey, descriptorSize, none⟩).2 =
      ⟨0, requested fw mapSize, mapKey, descriptorSize, none⟩ := by
  unfold getMemoryMap requested
  dsimp only
  by_cases small : mapSize < fw.before.size
  · simp [small]
  · cases fw.overwrites <;> simp [small]

theorem takeMap_fits {fw : Firmware} {mapSize : Nat} (fits : StillFits fw mapSize)
    (mapKey descriptorSize : Nat) : takeMap fw ⟨0, mapSize, mapKey, descriptorSize, none⟩ =
      ⟨fw.pool, fw.after.size, fw.after.key, fw.after.descriptorSize,
        some ⟨fw.pool, requested fw mapSize, fw.after⟩⟩ := by
  obtain ⟨allocated, room⟩ := fits
  have large : ¬ requested fw mapSize < fw.after.size := by omega
  simp only [takeMap, firstCall_eq]
  simp only [getMemoryMap, large, ↓reduceIte, allocated]

/-- Otherwise no buffer is filled. -/
theorem takeMap_short {fw : Firmware} {mapSize : Nat} (short : ¬ StillFits fw mapSize)
    (mapKey descriptorSize : Nat) :
    (takeMap fw ⟨0, mapSize, mapKey, descriptorSize, none⟩).filled = none := by
  simp only [takeMap, firstCall_eq]
  rw [getMemoryMap]
  by_cases small : requested fw mapSize < fw.after.size
  · simp only [small, ↓reduceIte]
  · have failed : fw.pool = 0 := by
      by_contra allocated
      exact short ⟨allocated, by omega⟩
    simp only [small, ↓reduceIte, failed]
    split <;> rfl

theorem handOff_entered {font : Nat} (found : font ≠ 0) (fw : Firmware)
    (mapSize mapKey descriptorSize : Nat) :
    let s := takeMap fw ⟨0, mapSize, mapKey, descriptorSize, none⟩
    handOff fw mapSize mapKey descriptorSize font =
      ⟨s.mapKey == fw.after.key, some ⟨s.map, s.mapSize, s.descriptorSize⟩, s.filled⟩ :=
  if_neg found

theorem Handoff.Valid.fits {fw : Firmware} {mapSize mapKey descriptorSize font : Nat}
    (valid : (handOff fw mapSize mapKey descriptorSize font).Valid) :
    font = 0 ∨ StillFits fw mapSize := by
  by_cases none : font = 0
  · exact Or.inl none
  · right
    by_contra short
    rw [handOff_entered none] at valid
    obtain ⟨_, w, filled, _⟩ := valid _ rfl
    dsimp only at filled
    rw [takeMap_short short] at filled
    cases filled

/-- **The kernel gets a valid map exactly when the map still fits** into the
buffer allocated for it, or it is not entered at all. -/
theorem handoff_iff (fw : Firmware) (mapSize mapKey descriptorSize font : Nat) :
    (handOff fw mapSize mapKey descriptorSize font).Valid ↔
      font = 0 ∨ StillFits fw mapSize := by
  constructor
  · exact Handoff.Valid.fits
  · intro safe memInfo entered
    by_cases none : font = 0
    · simp only [handOff, none, ↓reduceIte] at entered
      cases entered
    · have fits := safe.resolve_left none
      rw [handOff_entered none, takeMap_fits fits] at entered ⊢
      obtain rfl := Option.some.inj entered
      exact ⟨beq_self_eq_true _, _, rfl, rfl, rfl, rfl, fits.2⟩

/-- The allocation splits a descriptor of the map. -/
def splitting : Firmware where
  before := ⟨480, 7, 48⟩
  after := ⟨528, 8, 48⟩
  pool := 0x100000
  overwrites := false

/-- The kernel is entered without a map. -/
theorem splitting_invalid : ¬ (handOff splitting 0 0 0 0x200000).Valid := by
  intro valid
  rcases valid.fits with none | ⟨_, room⟩
  · cases none
  · revert room
    decide

end KessOS.Bootloader
