import KessOS.Strings
import KessOS.KernelInit

/-!
# The keystroke buffer

The keyboard interrupt looks its byte up in a string of 58 characters. The byte
can be up to 255, and `pressed` is only ever set.

* `run_pressed`: a key has been pressed at some time;
* `follows_iff`: the runs in which the buffer is right after every byte.
-/

namespace KessOS

structure PS2Keystroke where
  scancode : Nat
  ch : UInt8
  pressed : Nat

/-- The characters of the string, without the `NUL` at its end. -/
def scAscii : List UInt8 :=
  [0x00, 0x1B] ++ "1234567890-=".toList.map ascii ++ [0x08] ++
  [0x00] ++ "qwertyuiop[]".toList.map ascii ++ [0x0D, 0x1D] ++ "asdfghjkl;'`".toList.map ascii ++
  [0x00] ++ "\\".toList.map ascii ++ "zxcvbnm,./".toList.map ascii ++ [0x00, 0x00, 0x00] ++
  " ".toList.map ascii

/-- The bytes of the string object. -/
def sizeofScAscii : Nat := scAscii.length + 1

def Machine.picSendEOI (irq : Nat) (s : Machine) : Machine :=
  let s := if irq ≥ 8 then s.outportb pic2Command 0x20 else s
  s.outportb pic1Command 0x20

/-- The driver and the machine. `reads` holds the indices read from `SC_ASCII`,
latest first. -/
structure Keyboard where
  buffer : PS2Keystroke
  reads : List Nat
  machine : Machine

namespace Keyboard

def initial (machine : Machine) : Keyboard where
  buffer := ⟨0, 0, 0⟩
  reads := []
  machine := machine

/-- `SC_ASCII[i]`; `beyond` is the memory from `SC_ASCII` on. -/
def lookup (beyond : Mem) (i : Nat) : UInt8 :=
  if i < sizeofScAscii then scAscii.getD i 0 else beyond i

section
variable (beyond : Mem)

/-- With `byte` at port `0x60`. -/
def irq1Handler (byte : UInt8) (s : Keyboard) : Keyboard :=
  let s := { s with buffer := { s.buffer with scancode := byte.toNat } }
  let s := { s with
    buffer := { s.buffer with ch := lookup beyond s.buffer.scancode }
    reads := s.buffer.scancode :: s.reads }
  let s :=
    if s.buffer.scancode &&& 0x80 = 0 then { s with buffer := { s.buffer with pressed := 1 } }
    else s
  { s with machine := s.machine.picSendEOI 0x1 }

def run (bytes : List UInt8) (s : Keyboard) : Keyboard :=
  bytes.foldl (fun s byte => irq1Handler beyond byte s) s

/-- The buffer shows the byte, and every read was inside the string. -/
structure Shows (byte : UInt8) (s : Keyboard) : Prop where
  scancode : s.buffer.scancode = byte.toNat
  pressed : s.buffer.pressed = 1 ↔ byte.toNat < 128
  ch : s.buffer.ch = scAscii.getD byte.toNat 0
  inside : ∀ i, i ∈ s.reads → i < sizeofScAscii

/-- So it is after each of the bytes. -/
def Follows : Keyboard → List UInt8 → Prop
  | _, [] => True
  | s, byte :: bytes =>
    Shows byte (irq1Handler beyond byte s) ∧ Follows (irq1Handler beyond byte s) bytes

end

/-! ## One byte -/

theorem sizeofScAscii_eq : sizeofScAscii = 59 := by decide

/-- Bit 7 is clear in a make code. -/
theorem make_iff (byte : UInt8) : byte.toNat &&& 0x80 = 0 ↔ byte.toNat < 128 := by
  have below := byte.toNat_lt
  rw [show (0x80 : Nat) = 2 ^ 7 from rfl, Nat.and_two_pow, Nat.testBit_eq_decide_div_mod_eq]
  by_cases low : byte.toNat < 128
  · have bit : byte.toNat / 128 % 2 = 0 := by omega
    simp [bit, low]
  · have bit : byte.toNat / 128 % 2 = 1 := by omega
    simp [bit, low]

theorem irq1Handler_pressed (beyond : Mem) (byte : UInt8) (s : Keyboard) :
    (irq1Handler beyond byte s).buffer.pressed =
      if byte.toNat < 128 then 1 else s.buffer.pressed := by
  unfold irq1Handler
  dsimp only
  rw [if_congr (make_iff byte) rfl rfl]
  split <;> rfl

theorem irq1Handler_reads (beyond : Mem) (byte : UInt8) (s : Keyboard) :
    (irq1Handler beyond byte s).reads = byte.toNat :: s.reads := by
  unfold irq1Handler
  dsimp only
  split <;> rfl

/-- **One byte**: the buffer is right exactly for a byte inside the string. -/
theorem irq1Handler_shows_iff (beyond : Mem) {s : Keyboard}
    (inside : ∀ i, i ∈ s.reads → i < sizeofScAscii) (byte : UInt8) :
    Shows byte (irq1Handler beyond byte s) ↔ byte.toNat < sizeofScAscii := by
  constructor
  · intro shows
    apply shows.inside
    rw [irq1Handler_reads]
    exact List.mem_cons_self
  · intro short
    have make : byte.toNat < 128 := by
      rw [sizeofScAscii_eq] at short
      omega
    have handled : (irq1Handler beyond byte s).buffer =
        ⟨byte.toNat, lookup beyond byte.toNat, 1⟩ := by
      unfold irq1Handler
      dsimp only
      rw [if_pos ((make_iff byte).mpr make)]
    constructor
    · rw [handled]
    · rw [handled]
      exact iff_of_true rfl make
    · rw [handled]
      exact if_pos short
    · intro i read
      rw [irq1Handler_reads] at read
      rcases List.mem_cons.mp read with rfl | before
      · exact short
      · exact inside i before

/-! ## Runs -/

/-- `pressed` says that some byte so far was a make code. -/
theorem run_pressed (beyond : Mem) (bytes : List UInt8) (s : Keyboard) :
    (run beyond bytes s).buffer.pressed = 1 ↔
      s.buffer.pressed = 1 ∨ ∃ byte, byte ∈ bytes ∧ byte.toNat < 128 := by
  induction bytes generalizing s with
  | nil => simp [run]
  | cons byte bytes ih =>
    refine (ih (irq1Handler beyond byte s)).trans ?_
    rw [irq1Handler_pressed]
    by_cases make : byte.toNat < 128
    · simp [make]
    · simp [make]

theorem follows_from (beyond : Mem) {s : Keyboard}
    (inside : ∀ i, i ∈ s.reads → i < sizeofScAscii) (bytes : List UInt8) :
    Follows beyond s bytes ↔ ∀ byte, byte ∈ bytes → byte.toNat < sizeofScAscii := by
  induction bytes generalizing s with
  | nil => exact iff_of_true trivial fun byte listed => absurd listed List.not_mem_nil
  | cons byte bytes ih =>
    rw [Follows, List.forall_mem_cons]
    constructor
    · rintro ⟨shows, rest⟩
      exact ⟨(irq1Handler_shows_iff beyond inside byte).mp shows, (ih shows.inside).mp rest⟩
    · rintro ⟨short, all⟩
      have shows := (irq1Handler_shows_iff beyond inside byte).mpr short
      exact ⟨shows, (ih shows.inside).mpr all⟩

/-- **The runs the buffer follows** are those of bytes up to `0x3A`, the index of
the `NUL`. -/
theorem follows_iff (beyond : Mem) (machine : Machine) (bytes : List UInt8) :
    Follows beyond (initial machine) bytes ↔
      ∀ byte, byte ∈ bytes → byte.toNat < sizeofScAscii :=
  follows_from beyond (fun _ read => absurd read List.not_mem_nil) bytes

/-- The A key goes down and up. -/
theorem release_read_outside : ¬ ∀ (beyond : Mem) (machine : Machine) (bytes : List UInt8),
    Follows beyond (initial machine) bytes := by
  intro all
  obtain ⟨_, release, _⟩ := all (fun _ => 0) (Machine.atStart (fun _ => 0) 0x2) [0x1E, 0x9E]
  have inside := release.inside 0x9E (by decide)
  exact absurd inside (by decide)

end Keyboard

end KessOS
