import KessOS.Bytes
import KessOS.CLoop

/-!
# The bootloader loads the kernel image

Firmware's `Read` copies file bytes to memory and `AllocatePages` leaves memory
as it is, so every byte of a segment past `p_filesz` keeps what RAM held before.

* `loadKernel`: the ELF check, the table of program headers and its walk;
* `Loadable`: what the file and the firmware promise;
* `loadKernel_iff`: the image is the file's exactly over clean RAM.
-/

namespace KessOS.Bootloader

/-- `memcmp` from index `i` on, with `n` bytes to go. -/
def memcmp (a b : Nat → UInt8) : Nat → Nat → Int
  | _, 0 => 0
  | i, n + 1 =>
    if a i < b i then -1
    else if a i > b i then 1
    else memcmp a b (i + 1) n

theorem memcmp_eq_zero (a b : Nat → UInt8) (i n : Nat) :
    memcmp a b i n = 0 ↔ ∀ j, j < n → a (i + j) = b (i + j) := by
  induction n generalizing i with
  | zero => simp [memcmp]
  | succ n ih =>
    rw [span_succ, memcmp]
    split
    · next less =>
      constructor
      · intro h
        cases h
      · rintro ⟨same, _⟩
        rw [same] at less
        exact absurd less (UInt8.lt_irrefl _)
    · next ge =>
      split
      · next more =>
        constructor
        · intro h
          cases h
        · rintro ⟨same, _⟩
          rw [same] at more
          exact absurd more (UInt8.lt_irrefl _)
      · next le =>
        have same : a i = b i := by
          rw [UInt8.lt_iff_toNat_lt] at ge
          rw [gt_iff_lt, UInt8.lt_iff_toNat_lt] at le
          exact UInt8.toNat_inj.mp (by omega)
        rw [ih (i + 1)]
        simp only [same, true_and]

/-- The members of `Elf64_Ehdr` that the loader looks at. -/
structure Ehdr where
  eIdent : Nat → UInt8
  eType : Nat
  eMachine : Nat
  eVersion : Nat
  ePhoff : Nat
  ePhentsize : Nat
  ePhnum : Nat

/-- The members of `Elf64_Phdr` that the loader looks at. -/
structure Phdr where
  pType : Nat
  pOffset : Nat
  pPaddr : Nat
  pFilesz : Nat
  pMemsz : Nat
  deriving DecidableEq

def Ehdr.read (m : Mem) (a : Nat) : Ehdr where
  eIdent i := m (a + i)
  eType := m.read16 (a + 16)
  eMachine := m.read16 (a + 18)
  eVersion := m.read32 (a + 20)
  ePhoff := m.read64 (a + 32)
  ePhentsize := m.read16 (a + 54)
  ePhnum := m.read16 (a + 56)

def Phdr.read (m : Mem) (a : Nat) : Phdr where
  pType := m.read32 a
  pOffset := m.read64 (a + 8)
  pPaddr := m.read64 (a + 24)
  pFilesz := m.read64 (a + 32)
  pMemsz := m.read64 (a + 40)

/-- The characters of `ELFMAG`. -/
def elfMag : Nat → UInt8
  | 0 => 0x7f
  | 1 => 0x45
  | 2 => 0x4c
  | 3 => 0x46
  | _ => 0

def eiClass : Nat := 4
def elfClass64 : UInt8 := 2
def etExec : Nat := 2
def emX8664 : Nat := 62
def evCurrent : Nat := 1
def ptLoad : Nat := 1

def headerBad (header : Ehdr) : Bool :=
  memcmp header.eIdent elfMag 0 4 ≠ 0 || header.eIdent eiClass ≠ elfClass64 ||
    header.eType ≠ etExec || header.eMachine ≠ emX8664 || header.eVersion ≠ evCurrent

/-- A file of firmware's file system. -/
structure EfiFile where
  size : Nat
  bytes : Mem
  size_lt : size < 9223372036854775808

/-- `SetPosition` and `Read`: no byte past the end of the file. -/
def EfiFile.read (f : EfiFile) (m : Mem) (position size buffer : Nat) : Mem :=
  m.blit buffer (min size (f.size - position)) fun i => f.bytes (position + i)

/-- The header, read from the start of the file. -/
def EfiFile.header (f : EfiFile) : Ehdr := Ehdr.read f.bytes 0

/-- A product of two `uint16_t`s is an `int`. -/
def EfiFile.progHeaderSize (f : EfiFile) : Nat :=
  u64 (int32 (f.header.ePhnum * f.header.ePhentsize))

/-- Memory and the calls of `AllocatePages`: address and number of pages. -/
structure Loader where
  mem : Mem
  allocated : List (Nat × Int)

def Phdr.pages (phdr : Phdr) : Int :=
  int32 ((phdr.pMemsz + 0x1000 - 1) % 18446744073709551616 / 0x1000)

/-- The body of the loop. -/
def loadPhdr (f : EfiFile) (phdr : Nat) (s : Loader) : Loader :=
  let p := Phdr.read s.mem phdr
  if p.pType = ptLoad then
    { mem := f.read s.mem p.pOffset p.pFilesz p.pPaddr
      allocated := s.allocated ++ [(p.pPaddr, p.pages)] }
  else s

/-- The walk over the table. With more than `e_phnum` iterations the test ends it. -/
def loadLoop (f : EfiFile) (limit : Nat) : Nat → Nat → Loader → Loader
  | 0, _, s => s
  | fuel + 1, phdr, s =>
    if phdr < limit then
      loadLoop f limit fuel ((phdr + f.header.ePhentsize) % 18446744073709551616)
        (loadPhdr f phdr s)
    else s

/-- Memory when the loop starts: the table is in the pool buffer. -/
def readTable (f : EfiFile) (progHeaders : Nat) (m : Mem) : Mem :=
  f.read m f.header.ePhoff f.progHeaderSize progHeaders

/-- The part of `efi_main` from the check of the header to the end of the loop.
`progHeaders` is what `AllocatePool` returned. -/
def loadKernel (f : EfiFile) (progHeaders : Nat) (m : Mem) : Loader :=
  if headerBad f.header then ⟨m, []⟩
  else
    loadLoop f ((progHeaders + f.progHeaderSize) % 18446744073709551616) (f.header.ePhnum + 1)
      progHeaders ⟨readTable f progHeaders m, []⟩

/-! ## What the file describes -/

/-- The number of headers that start inside the table. -/
def Ehdr.count (header : Ehdr) : Nat := if header.ePhentsize = 0 then 0 else header.ePhnum

/-- Header `i` of the table, as it lies in memory `m`. -/
def EfiFile.phdr (f : EfiFile) (progHeaders : Nat) (m : Mem) (i : Nat) : Phdr :=
  Phdr.read m (progHeaders + i * f.header.ePhentsize)

/-- The bytes that come from the file, the rest of the segment, and its pages. -/
def Phdr.InFile (p : Phdr) (x : Nat) : Prop := p.pPaddr ≤ x ∧ x < p.pPaddr + p.pFilesz
def Phdr.InTail (p : Phdr) (x : Nat) : Prop :=
  p.pPaddr + p.pFilesz ≤ x ∧ x < p.pPaddr + p.pMemsz
def Phdr.InPages (p : Phdr) (x : Nat) : Prop :=
  p.pPaddr ≤ x ∧ x < p.pPaddr + (p.pMemsz + 4095) / 4096 * 4096

section
variable (f : EfiFile) (progHeaders : Nat) (m : Mem)

/-- Header `i` asks for a segment. -/
structure Loads (i : Nat) : Prop where
  counted : i < f.header.count
  load : (f.phdr progHeaders m i).pType = ptLoad

/-- What the file and the firmware promise, in the memory `m` that holds the table. -/
structure Loadable : Prop where
  good : headerBad f.header = false
  table : f.header.ePhoff + f.progHeaderSize ≤ f.size
  room : progHeaders + f.progHeaderSize < 18446744073709551616
  aligned : ∀ i, Loads f progHeaders m i → (f.phdr progHeaders m i).pPaddr % 4096 = 0
  fits : ∀ i, Loads f progHeaders m i →
    (f.phdr progHeaders m i).pFilesz ≤ (f.phdr progHeaders m i).pMemsz
  inFile : ∀ i, Loads f progHeaders m i →
    (f.phdr progHeaders m i).pOffset + (f.phdr progHeaders m i).pFilesz ≤ f.size
  disjoint : ∀ i j x, Loads f progHeaders m i → Loads f progHeaders m j → i ≠ j →
    (f.phdr progHeaders m i).InPages x → ¬ (f.phdr progHeaders m j).InPages x
  apart : ∀ i j k, Loads f progHeaders m i → j < f.header.count → k < 56 →
    ¬ (f.phdr progHeaders m i).InPages (progHeaders + j * f.header.ePhentsize + k)

/-- The image the file describes, loaded over the memory `m`. -/
structure Image (loaded : Mem) : Prop where
  placed : ∀ i, Loads f progHeaders m i → ∀ k, k < (f.phdr progHeaders m i).pFilesz →
    loaded ((f.phdr progHeaders m i).pPaddr + k) =
      f.bytes ((f.phdr progHeaders m i).pOffset + k)
  zeroed : ∀ i, Loads f progHeaders m i → ∀ x, (f.phdr progHeaders m i).InTail x → loaded x = 0
  outside : ∀ x, (∀ i, Loads f progHeaders m i → ¬ (f.phdr progHeaders m i).InPages x) →
    loaded x = m x

/-- After `n` headers: the loaded part of the image, and the rest of memory kept. -/
structure Walked (n : Nat) (s : Loader) : Prop where
  placed : ∀ i, i < n → Loads f progHeaders m i → ∀ k, k < (f.phdr progHeaders m i).pFilesz →
    s.mem ((f.phdr progHeaders m i).pPaddr + k) = f.bytes ((f.phdr progHeaders m i).pOffset + k)
  kept : ∀ x, (∀ i, i < n → Loads f progHeaders m i → ¬ (f.phdr progHeaders m i).InFile x) →
    s.mem x = m x
  asked : ∀ i, i < n → Loads f progHeaders m i →
    ((f.phdr progHeaders m i).pPaddr, (f.phdr progHeaders m i).pages) ∈ s.allocated

end

/-! ## The walk -/

theorem Phdr.read_congr {m m' : Mem} {a a' : Nat}
    (same : ∀ k, k < 56 → m (a + k) = m' (a' + k)) : Phdr.read m a = Phdr.read m' a' := by
  have field (o n : Nat) (h : o + n ≤ 56) : m.readLE (a + o) n = m'.readLE (a' + o) n := by
    apply Mem.readLE_congr
    intro i hi
    rw [Nat.add_assoc, Nat.add_assoc]
    exact same (o + i) (by omega)
  have first := field 0 4 (by omega)
  rw [Nat.add_zero, Nat.add_zero] at first
  simp only [Phdr.read, Mem.read32, Mem.read64, first, field 8 8 (by omega),
    field 24 8 (by omega), field 32 8 (by omega), field 40 8 (by omega)]

theorem ePhentsize_lt (f : EfiFile) : f.header.ePhentsize < 65536 := Mem.readLE_lt f.bytes 54 2

theorem product_le (f : EfiFile) :
    f.header.ePhnum * f.header.ePhentsize ≤ 65535 * 65535 := by
  have num : f.header.ePhnum < 65536 := Mem.readLE_lt f.bytes 56 2
  have entsize := ePhentsize_lt f
  exact Nat.mul_le_mul (by omega) (by omega)

/-- The product as it is, or the negative `int` it overflows to. -/
theorem progHeaderSize_cases (f : EfiFile) :
    f.header.ePhnum * f.header.ePhentsize < 2147483648 ∧
        f.progHeaderSize = f.header.ePhnum * f.header.ePhentsize ∨
      2147483648 ≤ f.header.ePhnum * f.header.ePhentsize ∧
        f.progHeaderSize = f.header.ePhnum * f.header.ePhentsize + 18446744069414584320 := by
  have bound := product_le f
  unfold EfiFile.progHeaderSize u64 int32
  split <;> omega

section
variable {f : EfiFile} {progHeaders : Nat} {m : Mem}

/-- The file holds the table, so the product did not overflow the `int`. -/
theorem Loadable.size (h : Loadable f progHeaders m) :
    f.progHeaderSize = f.header.ePhnum * f.header.ePhentsize := by
  have table := h.table
  have file := f.size_lt
  rcases progHeaderSize_cases f with ⟨_, exact_size⟩ | ⟨_, overflow⟩
  · exact exact_size
  · omega

/-- A header that ends inside the table is the file's. -/
theorem Loadable.phdr_file (h : Loadable f progHeaders (readTable f progHeaders m)) {i : Nat}
    (inside : i * f.header.ePhentsize + 56 ≤ f.header.ePhnum * f.header.ePhentsize) :
    f.phdr progHeaders (readTable f progHeaders m) i =
      Phdr.read f.bytes (f.header.ePhoff + i * f.header.ePhentsize) := by
  have table := h.table
  rw [← h.size] at inside
  apply Phdr.read_congr
  intro k hk
  have place : f.header.ePhoff + (progHeaders + i * f.header.ePhentsize + k - progHeaders) =
      f.header.ePhoff + i * f.header.ePhentsize + k := by omega
  rw [readTable, EfiFile.read, Mem.blit_inside _ _ (by omega), place]

/-- Inside the table the pointer does not wrap, and the loop is a fold over the headers. -/
theorem loadLoop_eq_foldl (n : Nat) (p : Nat) {fuel : Nat} (hf : n < fuel)
    (room : p + n * f.header.ePhentsize < 18446744073709551616)
    (moves : n ≠ 0 → f.header.ePhentsize ≠ 0) (s : Loader) :
    loadLoop f (p + n * f.header.ePhentsize) fuel p s =
      (List.range n).foldl (fun s i => loadPhdr f (p + i * f.header.ePhentsize) s) s := by
  induction n generalizing p fuel s with
  | zero =>
    obtain ⟨fuel, rfl⟩ := Nat.exists_eq_add_one_of_ne_zero (Nat.ne_zero_of_lt hf)
    simp [loadLoop]
  | succ n ih =>
    obtain ⟨fuel, rfl⟩ := Nat.exists_eq_add_one_of_ne_zero (Nat.ne_zero_of_lt hf)
    have stride := moves (by omega)
    have step (i : Nat) : p + (i + 1) * f.header.ePhentsize =
        p + f.header.ePhentsize + i * f.header.ePhentsize := by
      rw [Nat.add_mul, Nat.one_mul]
      omega
    rw [step] at room ⊢
    have below : p < p + f.header.ePhentsize + n * f.header.ePhentsize := by omega
    rw [loadLoop, if_pos below, Nat.mod_eq_of_lt (by omega),
      ih _ (by omega) room (fun _ => stride), List.range_succ_eq_map, List.foldl_cons,
      List.foldl_map]
    simp only [Nat.zero_mul, Nat.add_zero, Nat.succ_eq_add_one, step]

theorem Walked.start : Walked f progHeaders m 0 ⟨m, []⟩ where
  placed i hi := by omega
  kept _ _ := rfl
  asked i hi := by omega

theorem Loadable.pages_of_file (h : Loadable f progHeaders m) {i : Nat}
    (loads : Loads f progHeaders m i) {x : Nat} (inside : (f.phdr progHeaders m i).InFile x) :
    (f.phdr progHeaders m i).InPages x := by
  have := h.fits i loads
  obtain ⟨lo, hi⟩ := inside
  exact ⟨lo, by omega⟩

theorem loadPhdr_load {a : Nat} {p : Phdr} {s : Loader} (seen : Phdr.read s.mem a = p)
    (load : p.pType = ptLoad) (inFile : p.pOffset + p.pFilesz ≤ f.size) :
    loadPhdr f a s = ⟨s.mem.blit p.pPaddr p.pFilesz fun i => f.bytes (p.pOffset + i),
      s.allocated ++ [(p.pPaddr, p.pages)]⟩ := by
  have whole : min p.pFilesz (f.size - p.pOffset) = p.pFilesz := by omega
  simp only [loadPhdr, seen, load, ↓reduceIte, EfiFile.read, whole]

theorem loadPhdr_other {a : Nat} {p : Phdr} {s : Loader} (seen : Phdr.read s.mem a = p)
    (other : p.pType ≠ ptLoad) : loadPhdr f a s = s := by
  simp only [loadPhdr, seen, other, ↓reduceIte]

/-- One header: the others' bytes stay, and the walk still sees the table. -/
theorem Walked.step (h : Loadable f progHeaders m) {n : Nat} (hn : n < f.header.count) {s : Loader}
    (walked : Walked f progHeaders m n s) :
    Walked f progHeaders m (n + 1) (loadPhdr f (progHeaders + n * f.header.ePhentsize) s) := by
  have seen : Phdr.read s.mem (progHeaders + n * f.header.ePhentsize) =
      f.phdr progHeaders m n := by
    apply Phdr.read_congr
    intro k hk
    apply walked.kept
    intro i _ loads inside
    exact h.apart i n k loads hn hk (h.pages_of_file loads inside)
  by_cases load : (f.phdr progHeaders m n).pType = ptLoad
  · have loads : Loads f progHeaders m n := ⟨hn, load⟩
    rw [loadPhdr_load seen load (h.inFile n loads)]
    refine ⟨fun i hi hl k hk => ?_, fun x hx => ?_, fun i hi hl => ?_⟩
    · dsimp only
      by_cases last : i = n
      · subst last
        rw [Mem.blit_inside _ _ (by omega), Nat.add_sub_cancel_left]
      · have outside : ¬ (f.phdr progHeaders m n).InFile ((f.phdr progHeaders m i).pPaddr + k) :=
          fun inside => h.disjoint i n _ hl loads last
            (h.pages_of_file hl ⟨by omega, by omega⟩) (h.pages_of_file loads inside)
        unfold Phdr.InFile at outside
        rw [Mem.blit_outside _ _ (by omega)]
        exact walked.placed i (by omega) hl k hk
    · dsimp only
      have outside := hx n (by omega) loads
      unfold Phdr.InFile at outside
      rw [Mem.blit_outside _ _ (by omega)]
      exact walked.kept x fun i hi => hx i (by omega)
    · rw [List.mem_append]
      by_cases last : i = n
      · subst last
        exact .inr (List.mem_singleton.mpr rfl)
      · exact .inl (walked.asked i (by omega) hl)
  · rw [loadPhdr_other seen load]
    have before {i : Nat} (hi : i < n + 1) (hl : Loads f progHeaders m i) : i < n := by
      have : i ≠ n := fun e => load (e ▸ hl.load)
      omega
    exact ⟨fun i hi hl => walked.placed i (before hi hl) hl,
      fun x hx => walked.kept x fun i hi => hx i (by omega),
      fun i hi hl => walked.asked i (before hi hl) hl⟩

/-- The whole walk. -/
theorem Loadable.walked (h : Loadable f progHeaders (readTable f progHeaders m)) :
    Walked f progHeaders (readTable f progHeaders m) f.header.count
      (loadKernel f progHeaders m) := by
  have room := h.room
  rw [h.size] at room
  have limit : f.header.ePhnum * f.header.ePhentsize =
      f.header.count * f.header.ePhentsize := by
    unfold Ehdr.count
    split
    · next e => rw [e, Nat.mul_zero, Nat.mul_zero]
    · rfl
  have enough : f.header.count < f.header.ePhnum + 1 := by
    unfold Ehdr.count
    split <;> omega
  have moves : f.header.count ≠ 0 → f.header.ePhentsize ≠ 0 := by
    unfold Ehdr.count
    split <;> omega
  rw [loadKernel, h.good, if_neg (by simp), h.size, Nat.mod_eq_of_lt room]
  rw [limit] at room ⊢
  rw [loadLoop_eq_foldl _ _ enough room moves]
  have run : ∀ n, n ≤ f.header.count → Walked f progHeaders (readTable f progHeaders m) n
      ((List.range n).foldl (fun s i => loadPhdr f (progHeaders + i * f.header.ePhentsize) s)
        ⟨readTable f progHeaders m, []⟩) := by
    intro n
    induction n with
    | zero => exact fun _ => .start
    | succ n ih =>
      intro hn
      rw [List.range_succ, List.foldl_append, List.foldl_cons, List.foldl_nil]
      exact (ih (by omega)).step h (by omega)
  exact run _ (Nat.le_refl _)

/-- Tails are never written. -/
theorem Loadable.tail_kept (h : Loadable f progHeaders (readTable f progHeaders m)) {i x : Nat}
    (loads : Loads f progHeaders (readTable f progHeaders m) i)
    (tail : (f.phdr progHeaders (readTable f progHeaders m) i).InTail x) :
    (loadKernel f progHeaders m).mem x = readTable f progHeaders m x := by
  apply h.walked.kept
  intro j _ other inside
  obtain ⟨lo, hi⟩ := tail
  by_cases same : j = i
  · subst same
    exact absurd inside.2 (by omega)
  · exact h.disjoint j i x other loads same (h.pages_of_file other inside) ⟨by omega, by omega⟩

/-- Every byte the walk changes lies in a page it asked for. -/
theorem Loadable.changed_asked (h : Loadable f progHeaders (readTable f progHeaders m))
    (small : ∀ i, Loads f progHeaders (readTable f progHeaders m) i →
      (f.phdr progHeaders (readTable f progHeaders m) i).pMemsz < 8796093018113) {x : Nat}
    (changed : (loadKernel f progHeaders m).mem x ≠ readTable f progHeaders m x) :
    ∃ call ∈ (loadKernel f progHeaders m).allocated,
      call.1 ≤ x ∧ (x : Int) < call.1 + call.2 * 4096 := by
  by_contra none
  apply changed
  apply h.walked.kept
  intro i counted loads inside
  refine none ⟨_, h.walked.asked i counted loads, inside.1, ?_⟩
  obtain ⟨lo, hi⟩ := h.pages_of_file loads inside
  have := small i loads
  unfold Phdr.pages
  rw [Nat.mod_eq_of_lt (by omega), int32_small (by omega)]
  omega

/-- **The image is the file's exactly over clean RAM.** -/
theorem loadKernel_iff (h : Loadable f progHeaders (readTable f progHeaders m)) :
    (∀ i, i * f.header.ePhentsize + 56 ≤ f.header.ePhnum * f.header.ePhentsize →
      f.phdr progHeaders (readTable f progHeaders m) i =
        Phdr.read f.bytes (f.header.ePhoff + i * f.header.ePhentsize)) ∧
    (Image f progHeaders (readTable f progHeaders m) (loadKernel f progHeaders m).mem ↔
      ∀ i, Loads f progHeaders (readTable f progHeaders m) i →
        ∀ x, (f.phdr progHeaders (readTable f progHeaders m) i).InTail x →
          readTable f progHeaders m x = 0) := by
  refine ⟨fun i inside => h.phdr_file inside, ?_, ?_⟩
  · intro image i loads x tail
    rw [← h.tail_kept loads tail]
    exact image.zeroed i loads x tail
  · intro clean
    refine ⟨fun i loads => h.walked.placed i loads.counted loads, fun i loads x tail => ?_,
      fun x outside => ?_⟩
    · rw [h.tail_kept loads tail]
      exact clean i loads x tail
    · exact h.walked.kept x fun i _ loads inside =>
        outside i loads (h.pages_of_file loads inside)

end

/-! ## A kernel with one byte of `.bss` -/

/-- Two program headers at offset 64 and the bytes they ask for at 176: a segment
of one byte of data and one of `.bss` at 1 MiB, and one of a single byte at 2 MiB. -/
def bssKernel : EfiFile where
  size := 178
  bytes x := ([(0, 0x7f), (1, 0x45), (2, 0x4c), (3, 0x46), (4, 2), (16, 2), (18, 62), (20, 1),
    (32, 64), (54, 56), (56, 2), (64, 1), (72, 176), (90, 0x10), (96, 1), (104, 2),
    (120, 1), (128, 177), (146, 0x20), (152, 1), (160, 1), (176, 0xf4),
    (177, 0x90)].lookup x).getD 0
  size_lt := by omega

/-- RAM that holds `stale` everywhere. -/
def staleRam (stale : UInt8) : Mem := fun _ => stale

/-- Its headers, as the table in memory has them. -/
def bssPhdr : Nat → Phdr
  | 0 => ⟨1, 176, 0x100000, 1, 2⟩
  | _ => ⟨1, 177, 0x200000, 1, 1⟩

theorem bssKernel_table (stale : UInt8) {i : Nat} (listed : i < 2) :
    bssKernel.phdr 0x5000 (readTable bssKernel 0x5000 (staleRam stale)) i = bssPhdr i := by
  have file : ∀ i, i < 2 → bssPhdr i = Phdr.read bssKernel.bytes (64 + i * 56) := by decide
  rw [file i listed]
  apply Phdr.read_congr
  intro k hk
  rw [show bssKernel.header.ePhentsize = 56 by decide, readTable, EfiFile.read,
    show bssKernel.progHeaderSize = 112 by decide, show bssKernel.header.ePhoff = 64 by decide,
    show bssKernel.size = 178 from rfl, Mem.blit_inside _ _ (by omega)]
  rw [show 64 + (0x5000 + i * 56 + k - 0x5000) = 64 + i * 56 + k by omega]

theorem bssKernel_listed {m : Mem} {i : Nat} (loads : Loads bssKernel 0x5000 m i) : i < 2 := by
  have := loads.counted
  rwa [show bssKernel.header.count = 2 by decide] at this

theorem bssKernel_loadable (stale : UInt8) :
    Loadable bssKernel 0x5000 (readTable bssKernel 0x5000 (staleRam stale)) := by
  have entsize : bssKernel.header.ePhentsize = 56 := by decide
  have fields : ∀ i, i < 2 → (bssPhdr i).pPaddr % 4096 = 0 ∧
      (bssPhdr i).pFilesz ≤ (bssPhdr i).pMemsz ∧
      (bssPhdr i).pOffset + (bssPhdr i).pFilesz ≤ 178 := by decide
  have inPages {i x : Nat} (listed : i < 2) (inside : (bssPhdr i).InPages x) :
      0x100000 * (i + 1) ≤ x ∧ x < 0x100000 * (i + 1) + 4096 := by
    have pages : ∀ i, i < 2 → (bssPhdr i).pPaddr = 0x100000 * (i + 1) ∧
        ((bssPhdr i).pMemsz + 4095) / 4096 * 4096 = 4096 := by decide
    obtain ⟨start, length⟩ := pages i listed
    obtain ⟨lo, hi⟩ := inside
    omega
  refine ⟨by decide, by decide, by decide, fun i loads => ?_, fun i loads => ?_,
    fun i loads => ?_, fun i j x li lj ne inside inside' => ?_,
    fun i j k loads hj hk inside => ?_⟩
  · rw [bssKernel_table stale (bssKernel_listed loads)]
    exact (fields i (bssKernel_listed loads)).1
  · rw [bssKernel_table stale (bssKernel_listed loads)]
    exact (fields i (bssKernel_listed loads)).2.1
  · rw [bssKernel_table stale (bssKernel_listed loads)]
    exact (fields i (bssKernel_listed loads)).2.2
  · have hi := bssKernel_listed li
    have hj := bssKernel_listed lj
    rw [bssKernel_table stale hi] at inside
    rw [bssKernel_table stale hj] at inside'
    have first := inPages hi inside
    have second := inPages hj inside'
    omega
  · rw [bssKernel_table stale (bssKernel_listed loads)] at inside
    rw [show bssKernel.header.count = 2 by decide] at hj
    rw [entsize] at inside
    have page := inPages (bssKernel_listed loads) inside
    omega

theorem loadKernel_iff_bssKernel :
    Loadable bssKernel 0x5000 (readTable bssKernel 0x5000 (staleRam 0)) ∧
    ((∀ i, i * bssKernel.header.ePhentsize + 56 ≤
        bssKernel.header.ePhnum * bssKernel.header.ePhentsize →
      bssKernel.phdr 0x5000 (readTable bssKernel 0x5000 (staleRam 0)) i =
        Phdr.read bssKernel.bytes
          (bssKernel.header.ePhoff + i * bssKernel.header.ePhentsize)) ∧
    (Image bssKernel 0x5000 (readTable bssKernel 0x5000 (staleRam 0))
        (loadKernel bssKernel 0x5000 (staleRam 0)).mem ↔
      ∀ i, Loads bssKernel 0x5000 (readTable bssKernel 0x5000 (staleRam 0)) i →
        ∀ x, (bssKernel.phdr 0x5000 (readTable bssKernel 0x5000 (staleRam 0)) i).InTail x →
          readTable bssKernel 0x5000 (staleRam 0) x = 0)) :=
  ⟨bssKernel_loadable 0, loadKernel_iff (bssKernel_loadable 0)⟩

/-- Over RAM that holds ones the kernel's zero is a one. -/
theorem bssKernel_stale :
    Loadable bssKernel 0x5000 (readTable bssKernel 0x5000 (staleRam 1)) ∧
    ¬ Image bssKernel 0x5000 (readTable bssKernel 0x5000 (staleRam 1))
      (loadKernel bssKernel 0x5000 (staleRam 1)).mem := by
  refine ⟨bssKernel_loadable 1, fun image => ?_⟩
  have loads : Loads bssKernel 0x5000 (readTable bssKernel 0x5000 (staleRam 1)) 0 :=
    ⟨by decide, by rw [bssKernel_table 1 (by decide)]; rfl⟩
  have tail : (bssKernel.phdr 0x5000 (readTable bssKernel 0x5000 (staleRam 1)) 0).InTail
      0x100001 := by
    rw [bssKernel_table 1 (by decide)]
    exact ⟨by decide, by decide⟩
  have zero := image.zeroed 0 loads _ tail
  rw [(bssKernel_loadable 1).tail_kept loads tail, readTable, EfiFile.read,
    show bssKernel.progHeaderSize = 112 by decide, Mem.blit_outside _ _ (by omega)] at zero
  exact absurd zero (by decide)

end KessOS.Bootloader
