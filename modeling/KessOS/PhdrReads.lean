import KessOS.Elf

/-!
# Reads of the program headers

The loop over the table takes its stride and its end from the ELF header, and
how much of the table the file holds from neither.

* `loadLoop_eq_run`: it is the loop of the loader;
* `readsInside_iff`: the files whose table is read inside what `Read` stored.
-/

namespace KessOS.Bootloader

/-- The members of a header the body of the loop reads: address and size. -/
def fieldsRead (m : Mem) (phdr : Nat) : List (Nat × Nat) :=
  (phdr, 4) ::
    if (Phdr.read m phdr).pType = ptLoad then
      [(phdr + 40, 8), (phdr + 24, 8), (phdr + 8, 8), (phdr + 32, 8)]
    else []

section
variable (f : EfiFile)

/-- The end of the table: the product of the `int`s, added to the pointer. -/
def EfiFile.limit (progHeaders : Nat) : Nat :=
  (progHeaders + f.progHeaderSize) % 18446744073709551616

/-- The loop, on the pointer and the loader's state. -/
def phdrLoop (limit : Nat) : While (Nat × Loader) where
  guard s := s.1 < limit
  step s := ((s.1 + f.header.ePhentsize) % 18446744073709551616, loadPhdr f s.1 s.2)

/-- Round `i` starts in this state. -/
def roundState (progHeaders : Nat) (m : Mem) (i : Nat) : Nat × Loader :=
  (phdrLoop f (f.limit progHeaders)).after (progHeaders, ⟨readTable f progHeaders m, []⟩) i

/-- How many bytes `Read` stored in the buffer. -/
def EfiFile.stored : Nat := min f.progHeaderSize (f.size - f.header.ePhoff)

/-- The loop ends, and every read of a header is of bytes that `Read` stored. -/
structure ReadsInside (progHeaders : Nat) (m : Mem) : Prop where
  halts : (phdrLoop f (f.limit progHeaders)).Halts (progHeaders, ⟨readTable f progHeaders m, []⟩)
  inside : ∀ i, (phdrLoop f (f.limit progHeaders)).Enters
      (progHeaders, ⟨readTable f progHeaders m, []⟩) i →
    ∀ a n, (a, n) ∈ fieldsRead (roundState f progHeaders m i).2.mem
        (roundState f progHeaders m i).1 →
      progHeaders ≤ a ∧ a + n ≤ progHeaders + f.stored

/-- The product is an `int`, and the file holds what is read of each header:
its type and, where the loop finds a segment there, the members of that segment. -/
structure TableStored (progHeaders : Nat) (m : Mem) : Prop where
  small : f.header.ePhnum * f.header.ePhentsize < 2147483648
  types : ∀ i, i < f.header.ePhnum → i * f.header.ePhentsize + 4 ≤ f.stored
  segments : ∀ i, i < f.header.ePhnum →
    (f.phdr progHeaders (roundState f progHeaders m i).2.mem i).pType = ptLoad →
      i * f.header.ePhentsize + 48 ≤ f.stored

end

theorem loadLoop_eq_run (f : EfiFile) (limit : Nat) {fuel phdr : Nat} {s : Loader} :
    loadLoop f limit fuel phdr s = ((phdrLoop f limit).run fuel (phdr, s)).2 := by
  induction fuel generalizing phdr s with
  | zero => rfl
  | succ fuel ih =>
    rw [loadLoop, While.run, ih]
    simp only [phdrLoop, decide_eq_true_eq]
    split <;> rfl

/-! ## The pointer -/

section
variable (f : EfiFile)

theorem roundState_succ (progHeaders : Nat) (m : Mem) (i : Nat) :
    roundState f progHeaders m (i + 1) =
      (((roundState f progHeaders m i).1 + f.header.ePhentsize) % 18446744073709551616,
        loadPhdr f (roundState f progHeaders m i).1 (roundState f progHeaders m i).2) :=
  While.after_succ _ _ i

/-- The pointer, for as long as it does not wrap. -/
theorem roundState_phdr (progHeaders : Nat) (m : Mem) {i : Nat}
    (room : progHeaders + i * f.header.ePhentsize < 18446744073709551616) :
    (roundState f progHeaders m i).1 = progHeaders + i * f.header.ePhentsize := by
  induction i with
  | zero =>
    rw [Nat.zero_mul]
    rfl
  | succ i ih =>
    have next : (i + 1) * f.header.ePhentsize = i * f.header.ePhentsize + f.header.ePhentsize :=
      Nat.succ_mul i f.header.ePhentsize
    rw [roundState_succ, ih (by omega), Nat.mod_eq_of_lt (by omega), next, Nat.add_assoc]

theorem limit_lt (progHeaders : Nat) : f.limit progHeaders < 18446744073709551616 :=
  Nat.mod_lt _ (by decide)

theorem guard_eq (progHeaders : Nat) (m : Mem) (i : Nat) :
    (phdrLoop f (f.limit progHeaders)).guard (roundState f progHeaders m i) =
      decide ((roundState f progHeaders m i).1 < f.limit progHeaders) := rfl

/-- A round that starts below the end starts, and so do those before it. -/
theorem enters_of_lt (progHeaders : Nat) (m : Mem) {j : Nat}
    (last : progHeaders + j * f.header.ePhentsize < f.limit progHeaders) :
    (phdrLoop f (f.limit progHeaders)).Enters
      (progHeaders, ⟨readTable f progHeaders m, []⟩) j := by
  intro i before
  have mono : i * f.header.ePhentsize ≤ j * f.header.ePhentsize :=
    Nat.mul_le_mul_right _ before
  have word := limit_lt f progHeaders
  refine (guard_eq f progHeaders m i).trans (decide_eq_true ?_)
  rw [roundState_phdr f progHeaders m (by omega)]
  omega

end

/-- What is read of one header, with `stored` bytes of the table there. -/
theorem fieldsRead_inside_iff (m : Mem) (progHeaders offset stored : Nat) :
    (∀ a n, (a, n) ∈ fieldsRead m (progHeaders + offset) →
        progHeaders ≤ a ∧ a + n ≤ progHeaders + stored) ↔
      offset + 4 ≤ stored ∧
        ((Phdr.read m (progHeaders + offset)).pType = ptLoad → offset + 48 ≤ stored) := by
  unfold fieldsRead
  constructor
  · intro inside
    refine ⟨?_, fun load => ?_⟩
    · have := (inside (progHeaders + offset) 4 List.mem_cons_self).2
      omega
    · rw [if_pos load] at inside
      have := (inside (progHeaders + offset + 40) 8 (by simp)).2
      omega
  · rintro ⟨type, members⟩ a n listed
    rcases List.mem_cons.mp listed with first | rest
    · cases first
      omega
    · by_cases load : (Phdr.read m (progHeaders + offset)).pType = ptLoad
      · have room := members load
        rw [if_pos load] at rest
        simp only [List.mem_cons, Prod.mk.injEq, List.not_mem_nil, or_false] at rest
        omega
      · rw [if_neg load] at rest
        exact absurd rest List.not_mem_nil

/-! ## The three kinds of table -/

section
variable (f : EfiFile) (progHeaders : UInt64) (m : Mem)

/-- The loop does not run. -/
theorem readsInside_of_empty (empty : f.limit progHeaders.toNat ≤ progHeaders.toNat) :
    ReadsInside f progHeaders.toNat m := by
  have stop : (phdrLoop f (f.limit progHeaders.toNat)).guard
      (roundState f progHeaders.toNat m 0) = false :=
    (guard_eq f _ m 0).trans (decide_eq_false (Nat.not_lt.mpr empty))
  constructor
  · exact ⟨0, stop⟩
  · intro i enters
    have none := (While.enters_iff _ (fun i early => absurd early (Nat.not_lt_zero i)) stop i).mp
      enters
    exact absurd none (Nat.not_lt_zero i)

end

section
variable {f : EfiFile} {progHeaders : UInt64} (m : Mem)
  (runs : progHeaders.toNat < f.limit progHeaders.toNat)
  (small : f.header.ePhnum * f.header.ePhentsize < 2147483648)
include runs small

theorem limit_of_small : f.limit progHeaders.toNat =
    progHeaders.toNat + f.header.ePhnum * f.header.ePhentsize := by
  have word := progHeaders.toNat_lt
  have size : f.progHeaderSize = f.header.ePhnum * f.header.ePhentsize := by
    have := progHeaderSize_cases f
    omega
  unfold EfiFile.limit at runs ⊢
  omega

theorem phdr_of_small {i : Nat} (counted : i ≤ f.header.ePhnum) :
    (roundState f progHeaders.toNat m i).1 = progHeaders.toNat + i * f.header.ePhentsize := by
  have mono := Nat.mul_le_mul_right f.header.ePhentsize counted
  have limit := limit_of_small runs small
  have last := limit_lt f progHeaders.toNat
  exact roundState_phdr f _ m (by omega)

theorem goes_of_small {i : Nat} (counted : i < f.header.ePhnum) :
    (phdrLoop f (f.limit progHeaders.toNat)).guard (roundState f progHeaders.toNat m i) = true := by
  have limit := limit_of_small runs small
  have stride : 0 < f.header.ePhentsize := by
    by_contra zero
    rw [Nat.eq_zero_of_not_pos zero, Nat.mul_zero] at limit
    omega
  have less := Nat.mul_lt_mul_of_pos_right counted stride
  rw [guard_eq, phdr_of_small m runs small (Nat.le_of_lt counted), limit]
  exact decide_eq_true (by omega)

theorem stops_of_small :
    (phdrLoop f (f.limit progHeaders.toNat)).guard
      (roundState f progHeaders.toNat m f.header.ePhnum) = false := by
  rw [guard_eq, phdr_of_small m runs small (Nat.le_refl _), limit_of_small runs small]
  exact decide_eq_false (Nat.lt_irrefl _)

/-- The state in which the loader leaves the loop. -/
theorem loadKernel_eq_roundState (good : headerBad f.header = false) :
    loadKernel f progHeaders.toNat m = (roundState f progHeaders.toNat m f.header.ePhnum).2 := by
  rw [loadKernel, if_neg (by simp [good]), loadLoop_eq_run]
  exact congrArg Prod.snd (While.run_eq _ (fun i counted => goes_of_small m runs small counted)
    (stops_of_small m runs small) (Nat.lt_succ_self _))

/-- The loop goes through the table, header by header. -/
theorem readsInside_of_small :
    ReadsInside f progHeaders.toNat m ↔ TableStored f progHeaders.toNat m := by
  have stop := stops_of_small m runs small
  have enters := While.enters_iff _ (fun i counted => goes_of_small m runs small counted) stop
  have header {i : Nat} (counted : i < f.header.ePhnum) :=
    fieldsRead_inside_iff (roundState f progHeaders.toNat m i).2.mem progHeaders.toNat
      (i * f.header.ePhentsize) f.stored
  constructor
  · intro reads
    have each {i : Nat} (counted : i < f.header.ePhnum) := by
      have inside := reads.inside i ((enters i).mpr counted)
      rw [phdr_of_small m runs small (Nat.le_of_lt counted)] at inside
      exact (header counted).mp inside
    exact ⟨small, fun i counted => (each counted).1, fun i counted => (each counted).2⟩
  · intro stored
    refine ⟨⟨_, stop⟩, fun i entered => ?_⟩
    have counted := (enters i).mp entered
    rw [phdr_of_small m runs small (Nat.le_of_lt counted)]
    exact (header counted).mpr ⟨stored.types i counted, stored.segments i counted⟩

end

section
variable (f : EfiFile) (progHeaders : UInt64) (m : Mem)

/-- The product overflows and the loop runs all the same: it leaves the buffer. -/
theorem not_readsInside_of_overflow (runs : progHeaders.toNat < f.limit progHeaders.toNat)
    (overflow : 2147483648 ≤ f.header.ePhnum * f.header.ePhentsize) :
    ¬ ReadsInside f progHeaders.toNat m := by
  intro reads
  have word := progHeaders.toNat_lt
  have bound := product_le f
  have size : f.progHeaderSize =
      f.header.ePhnum * f.header.ePhentsize + 18446744069414584320 := by
    have := progHeaderSize_cases f
    omega
  have limit : f.limit progHeaders.toNat =
        progHeaders.toNat + f.header.ePhnum * f.header.ePhentsize + 18446744069414584320 ∧
      progHeaders.toNat < 2147483648 := by
    unfold EfiFile.limit at runs ⊢
    omega
  have entsize := ePhentsize_lt f
  have stride : 0 < f.header.ePhentsize := by
    by_contra zero
    rw [Nat.eq_zero_of_not_pos zero, Nat.mul_zero] at overflow
    omega
  -- the first header past 2^63 bytes, more than a file has
  let j := 9223372036854775808 / f.header.ePhentsize
  have floor : j * f.header.ePhentsize ≤ 9223372036854775808 := Nat.div_mul_le_self _ _
  have next : (j + 1) * f.header.ePhentsize = j * f.header.ePhentsize + f.header.ePhentsize :=
    Nat.succ_mul j f.header.ePhentsize
  have past : 9223372036854775808 < (j + 1) * f.header.ePhentsize := by
    have := Nat.lt_mul_div_succ 9223372036854775808 stride
    rwa [Nat.mul_comm] at this
  have entered := enters_of_lt f progHeaders.toNat m (j := j + 1) (by omega)
  have type := reads.inside (j + 1) entered (roundState f progHeaders.toNat m (j + 1)).1 4
    List.mem_cons_self
  rw [roundState_phdr f progHeaders.toNat m (by omega)] at type
  have file := f.size_lt
  have few : f.stored ≤ f.size := by
    unfold EfiFile.stored
    omega
  omega

/-- **Which tables are read inside what was stored**: those the loop skips, and
those of which the file holds what is read. -/
theorem readsInside_iff : ReadsInside f progHeaders.toNat m ↔
    f.limit progHeaders.toNat ≤ progHeaders.toNat ∨ TableStored f progHeaders.toNat m := by
  by_cases empty : f.limit progHeaders.toNat ≤ progHeaders.toNat
  · exact iff_of_true (readsInside_of_empty f progHeaders m empty) (Or.inl empty)
  · have runs := Nat.lt_of_not_le empty
    simp only [empty, false_or]
    by_cases small : f.header.ePhnum * f.header.ePhentsize < 2147483648
    · exact readsInside_of_small m runs small
    · exact iff_of_false (not_readsInside_of_overflow f progHeaders m runs (by omega))
        fun stored => small stored.small

end

/-- A file that ends with its header, in front of the one program header. -/
def truncated : EfiFile where
  size := 64
  bytes := fun x =>
    if x < 4 then elfMag x
    else if x = 4 then 2
    else if x = 16 then 2
    else if x = 18 then 62
    else if x = 20 then 1
    else if x = 32 then 64
    else if x = 54 then 56
    else if x = 56 then 1
    else 0
  size_lt := by decide

/-- Nothing of the table is stored, and its first header is read. -/
theorem truncated_read_outside : ¬ ∀ (f : EfiFile) (progHeaders : UInt64) (m : Mem),
    headerBad f.header = false → ReadsInside f progHeaders.toNat m := by
  intro all
  have reads := all truncated 0x100000 (fun _ => 0) (by decide)
  have entered := enters_of_lt truncated 0x100000 (fun _ => 0) (j := 0) (by decide)
  have type := (reads.inside 0 entered 0x100000 4 List.mem_cons_self).2
  revert type
  decide

end KessOS.Bootloader
