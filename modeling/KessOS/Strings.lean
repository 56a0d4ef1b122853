import KessOS.Bytes
import KessOS.CLoop
import KessOS.Numerals

/-!
# Numbers as strings

`dec2str` and `hex2str` write digits into a static buffer, least significant
first, append what comes in front of them and reverse the buffer.

* `finish_text`: what the common end of both leaves in the buffer;
* `dec2str_iff`: the result is the decimal numeral except for the smallest `int`;
* `hex2str_numeral`: the result is the hexadecimal numeral.
-/

namespace KessOS

def ascii (c : Char) : UInt8 := UInt8.ofNat c.toNat

def decDigit (d : Nat) : UInt8 := UInt8.ofNat (d + 0x30)

/-- `"0123456789ABCDEF"`. -/
def asciiNumbers (d : Nat) : UInt8 := ("0123456789ABCDEF".toList.map ascii).getD d 0

/-- A buffer and the index of its next free byte. -/
structure Tape where
  i : Nat
  buf : Mem

/-- `string[i++] = c`. The buffers have 80 bytes, so `i` is far from the end of
its 8 bits. -/
def Tape.push (t : Tape) (c : UInt8) : Tape := ⟨t.i + 1, t.buf.write8 t.i c⟩

/-- `while (number > 0)`: a 32-bit number has at most 32 digits in any base. -/
def putDigits (digit : Nat → UInt8) (next : Nat → Nat) : Nat → Nat → Tape → Tape
  | 0, _, t => t
  | fuel + 1, number, t =>
    if number > 0 then putDigits digit next fuel (next number) (t.push (digit number)) else t

/-- `for (j = 0; j < i; j++, i--)`, swapping the bytes at `j` and `i`. -/
def swapEnds : Nat → Nat → Mem → Mem
  | 0, _, buf => buf
  | i + 1, j, buf =>
    if j < i + 1 then swapEnds i (j + 1) ((buf.write8 j (buf (i + 1))).write8 (i + 1) (buf j))
    else buf

/-- Both functions end alike: the terminator, then the reversal in place. -/
def Tape.finish (t : Tape) : Mem := swapEnds (t.i - 1) 0 (t.buf.write8 t.i 0)

/-- `number = -number` on an `int`. -/
def negInt (i : Int) : Int := if i = -2147483648 then i else -i

/-- The number that the digits are taken from. -/
def magnitude (number : Int) : Int := if number < 0 then negInt number else number

/-- The contents of `dec_string` afterwards; `buf` are those before. -/
def dec2str (buf : Mem) (number : Int) : Mem :=
  let t : Tape := ⟨0, buf⟩
  let t := if number = 0 then t.push 0x30 else t
  let t := putDigits (fun n => decDigit (n % 10)) (fun n => n / 10) 32 (magnitude number).toNat t
  let t := if number < 0 then t.push (ascii '-') else t
  t.finish

/-- `strncpy` of this kernel writes no terminator. -/
def strncpyFrom (src : Nat → UInt8) (i : Nat) : Nat → Mem → Mem
  | 0, dst => dst
  | n + 1, dst => if src i ≠ 0 then strncpyFrom src (i + 1) n (dst.write8 i (src i)) else dst

def strncpy (dst : Mem) (src : Nat → UInt8) (len : Nat) : Mem := strncpyFrom src 0 len dst

def zeroLiteral (i : Nat) : UInt8 := if i = 0 then 0x30 else 0

/-- The contents of `hex_string` afterwards; `buf` are those before. -/
def hex2str (buf : Mem) (hexNum : Nat) : Mem :=
  let t : Tape := if hexNum = 0 then ⟨1, strncpy buf zeroLiteral 2⟩ else ⟨0, buf⟩
  let t := putDigits (fun n => asciiNumbers (n % 256 &&& 0x0F)) (fun n => n >>> 4) 32 hexNum t
  let t := if hexNum < 0x10 then t.push 0x30 else t
  let t := (t.push (ascii 'x')).push 0x30
  t.finish

/-- The string in a buffer: the bytes in front of the first `NUL`. -/
def textFrom (buf : Mem) (i : Nat) : Nat → List UInt8
  | 0 => []
  | n + 1 => if buf i = 0 then [] else buf i :: textFrom buf (i + 1) n

def textOf (buf : Mem) : List UInt8 := textFrom buf 0 80

/-! ## What is on the tape -/

/-- The tape holds these characters, in the order they were written. -/
structure Tape.Holds (t : Tape) (cs : List UInt8) : Prop where
  count : t.i = cs.length
  bytes : ∀ k (h : k < cs.length), t.buf k = cs[k]

theorem Tape.Holds.empty (buf : Mem) : Holds ⟨0, buf⟩ [] :=
  ⟨rfl, fun _ h => absurd h (Nat.not_lt_zero _)⟩

theorem Tape.Holds.push {t : Tape} {cs : List UInt8} (h : t.Holds cs) (c : UInt8) :
    (t.push c).Holds (cs ++ [c]) := by
  have count := h.count
  constructor
  · simp [Tape.push, count]
  · intro k hk
    rw [List.length_append, List.length_singleton] at hk
    by_cases last : k = cs.length
    · subst last
      simp only [Tape.push, count, List.getElem_concat_length]
      exact Mem.write8_self _ _ _
    · have inside : k < cs.length := by omega
      rw [List.getElem_append_left inside, ← h.bytes k inside]
      exact Mem.write8_other _ _ (by omega)

/-- The loop appends the digits, least significant first. -/
theorem putDigits_holds (N : Numerals UInt8) {digit : Nat → UInt8} {next : Nat → Nat}
    (low : ∀ n, digit n = N.digit (n % N.base)) (shift : ∀ n, next n = n / N.base) {fuel n : Nat}
    (small : n < 2 ^ fuel) {t : Tape} {cs : List UInt8} (h : t.Holds cs) :
    (putDigits digit next fuel n t).Holds (cs ++ (Nat.digits N.base n).map N.digit) := by
  induction fuel generalizing n t cs with
  | zero =>
    have zero : n = 0 := by omega
    rw [putDigits, zero, Nat.digits_zero, List.map_nil, List.append_nil]
    exact h
  | succ fuel ih =>
    rw [putDigits]
    split
    · next pos =>
      have two_le := N.two_le
      have smaller : n / N.base < 2 ^ fuel := by
        apply Nat.div_lt_of_lt_mul
        calc n < 2 * 2 ^ fuel := by rwa [← Nat.pow_succ']
          _ ≤ N.base * 2 ^ fuel := Nat.mul_le_mul_right _ two_le
      rw [Nat.digits_def' two_le pos, List.map_cons, low, shift]
      have rest := ih smaller (h.push (N.digit (n % N.base)))
      rwa [List.append_assoc] at rest
    · next none =>
      have zero : n = 0 := by omega
      rw [zero, Nat.digits_zero, List.map_nil, List.append_nil]
      exact h

/-- The loop mirrors the bytes from `j` to `i` and leaves the others. -/
theorem swapEnds_apply (i j : Nat) (buf : Mem) (k : Nat) :
    swapEnds i j buf k = if j ≤ k ∧ k ≤ i then buf (i + j - k) else buf k := by
  induction i generalizing j buf with
  | zero =>
    rw [swapEnds]
    split
    · next inside =>
      congr 1
      omega
    · rfl
  | succ i ih =>
    rw [swapEnds]
    by_cases meet : j < i + 1
    · rw [if_pos meet, ih]
      by_cases first : k = j
      · subst first
        rw [if_neg (by omega), if_pos (by omega), Mem.write8_other _ _ (by omega), Mem.write8_self]
        congr 1
        omega
      · by_cases last : k = i + 1
        · subst last
          rw [if_neg (by omega), if_pos (by omega), Mem.write8_self]
          congr 1
          omega
        · by_cases inside : j ≤ k ∧ k ≤ i + 1
          · rw [if_pos (by omega), if_pos inside, Mem.write8_other _ _ (by omega),
              Mem.write8_other _ _ (by omega)]
            congr 1
            omega
          · rw [if_neg (by omega), if_neg inside, Mem.write8_other _ _ (by omega),
              Mem.write8_other _ _ first]
    · rw [if_neg meet]
      split
      · next inside =>
        congr 1
        omega
      · rfl

theorem textFrom_eq {buf : Mem} {cs : List UInt8} (noNul : 0 ∉ cs) {i n : Nat}
    (room : cs.length < n) (bytes : ∀ k (h : k < cs.length), buf (i + k) = cs[k])
    (stop : buf (i + cs.length) = 0) : textFrom buf i n = cs := by
  induction cs generalizing i n with
  | nil =>
    obtain ⟨n, rfl⟩ := Nat.exists_eq_add_one_of_ne_zero (Nat.ne_zero_of_lt room)
    have here : buf i = 0 := stop
    rw [textFrom, if_pos here]
  | cons c cs ih =>
    rw [List.length_cons] at room
    obtain ⟨n, rfl⟩ := Nat.exists_eq_add_one_of_ne_zero (Nat.ne_zero_of_lt room)
    have first : buf i = c := bytes 0 (by simp)
    have char : c ≠ 0 := fun zero => noNul (zero ▸ List.mem_cons_self)
    rw [textFrom, first, if_neg char]
    congr 1
    apply ih (fun listed => noNul (List.mem_cons_of_mem _ listed)) (by omega)
    · intro k hk
      have next := bytes (k + 1) (by simpa using hk)
      rw [List.getElem_cons_succ] at next
      rw [← next]
      congr 1
      omega
    · rw [← stop, List.length_cons]
      congr 1
      omega

/-- **What the common end leaves**: the characters in reverse, as a string. -/
theorem finish_text {t : Tape} {cs : List UInt8} (h : t.Holds cs) (some : cs ≠ [])
    (noNul : 0 ∉ cs) (room : cs.length < 80) : textOf t.finish = cs.reverse := by
  have pos := List.length_pos_iff.mpr some
  have count := h.count
  apply textFrom_eq (by simpa using noNul) (by simpa using room)
  · intro k hk
    rw [List.length_reverse] at hk
    rw [Tape.finish, swapEnds_apply, if_pos (by omega), Mem.write8_other _ _ (by omega),
      List.getElem_reverse, ← h.bytes _ (by omega)]
    congr 1
    omega
  · rw [List.length_reverse, Tape.finish, swapEnds_apply, if_neg (by omega), count, Nat.zero_add]
    exact Mem.write8_self _ _ _

/-! ## Decimal -/

def decValue (c : UInt8) : Option Nat :=
  if 0x30 ≤ c.toNat ∧ c.toNat ≤ 0x39 then some (c.toNat - 0x30) else none

def decimal : Numerals UInt8 where
  base := 10
  two_le := by decide
  digit := decDigit
  value := decValue
  value_digit := by decide

/-- The value of a signed decimal number. -/
def readInt : List UInt8 → Option Int
  | [] => none
  | c :: rest =>
    if c = ascii '-' then (decimal.read rest).map fun n : Nat => -(n : Int)
    else (decimal.read (c :: rest)).map fun n : Nat => (n : Int)

/-- An optional sign and digits without leading zeros, whose value is `n`. -/
structure IsDecimal (text : List UInt8) (n : Int) : Prop where
  canonical : decimal.Canonical text ∨
    ∃ ds, text = ascii '-' :: ds ∧ decimal.Canonical ds ∧ ds ≠ [decDigit 0]
  value : readInt text = some n

/-- The numeral with its sign. -/
def decText (n : Int) : List UInt8 :=
  if n = -2147483648 then [ascii '-']
  else if n < 0 then ascii '-' :: decimal.numeral n.natAbs
  else decimal.numeral n.natAbs

theorem decDigit_ne {d : Nat} (h : d < 10) : decDigit d ≠ 0 ∧ decDigit d ≠ ascii '-' := by
  have all : ∀ d, d < 10 → decDigit d ≠ 0 ∧ decDigit d ≠ ascii '-' := by decide
  exact all d h

/-- What is on the tape at the end, in the order it was written. -/
def decTape (n : Int) : List UInt8 :=
  (if n = 0 then [0x30] else []) ++
    (Nat.digits 10 (magnitude n).toNat).map decDigit ++
    (if n < 0 then [ascii '-'] else [])

theorem magnitude_lt {n : Int} (lo : -2147483648 ≤ n) (hi : n < 2147483648) :
    (magnitude n).toNat < 2147483648 := by
  unfold magnitude negInt
  split
  · split <;> omega
  · omega

theorem decTape_short {n : Int} (lo : -2147483648 ≤ n) (hi : n < 2147483648) :
    (decTape n).length < 80 := by
  have small := magnitude_lt lo hi
  have digits : (Nat.digits 10 (magnitude n).toNat).length ≤ 10 :=
    (Nat.digits_length_le_iff (by decide) _).mpr (by omega)
  have first : (if n = 0 then [0x30] else [] : List UInt8).length ≤ 1 := by split <;> simp
  have sign : (if n < 0 then [ascii '-'] else []).length ≤ 1 := by split <;> simp
  rw [decTape, List.length_append, List.length_append, List.length_map]
  omega

theorem decTape_noNul (n : Int) : 0 ∉ decTape n := by
  intro zero
  rw [decTape, List.mem_append, List.mem_append] at zero
  rcases zero with (first | digit) | sign
  · split at first
    · exact absurd first (by decide)
    · cases first
  · obtain ⟨d, listed, same⟩ := List.mem_map.mp digit
    exact (decDigit_ne (Nat.digits_lt_base (by decide) listed)).1 same
  · split at sign
    · exact absurd sign (by decide)
    · cases sign

theorem decTape_ne_nil (n : Int) : decTape n ≠ [] := by
  intro none
  simp only [decTape, List.append_eq_nil_iff, List.map_eq_nil_iff, Nat.digits_eq_nil_iff_eq_zero]
    at none
  obtain ⟨⟨first, digits⟩, sign⟩ := none
  by_cases zero : n = 0
  · simp [zero] at first
  · by_cases negative : n < 0
    · simp [negative] at sign
    · rw [magnitude, if_neg negative] at digits
      omega

theorem decTape_reverse (n : Int) : (decTape n).reverse = decText n := by
  unfold decTape decText
  by_cases smallest : n = -2147483648
  · subst smallest
    rfl
  · rw [if_neg smallest]
    by_cases negative : n < 0
    · have pos : n.natAbs ≠ 0 := by omega
      have zero : n ≠ 0 := by omega
      have size : (-n).toNat = n.natAbs := by omega
      simp only [negative, zero, ↓reduceIte, magnitude, negInt, smallest, size, Numerals.numeral,
        pos, List.nil_append, List.reverse_append, List.reverse_singleton, List.singleton_append]
      rfl
    · have size : n.toNat = n.natAbs := by omega
      simp only [negative, ↓reduceIte, magnitude, size, List.append_nil, Numerals.numeral]
      by_cases zero : n = 0
      · subst zero
        rfl
      · have pos : n.natAbs ≠ 0 := by omega
        rw [if_neg zero, if_neg pos, List.nil_append]
        rfl

/-- **What `dec2str` returns**, whatever its buffer held. -/
theorem dec2str_text (buf : Mem) {n : Int} (lo : -2147483648 ≤ n) (hi : n < 2147483648) :
    textOf (dec2str buf n) = decText n := by
  have start : (if n = 0 then Tape.push ⟨0, buf⟩ 0x30 else ⟨0, buf⟩).Holds
      (if n = 0 then [0x30] else []) := by
    split
    · exact (Tape.Holds.empty buf).push 0x30
    · exact Tape.Holds.empty buf
  have small : (magnitude n).toNat < 2 ^ 32 := by
    have := magnitude_lt lo hi
    omega
  have digits : (putDigits (fun n => decDigit (n % 10)) (fun n => n / 10) 32 (magnitude n).toNat
      _).Holds _ := putDigits_holds decimal (fun _ => rfl) (fun _ => rfl) small start
  rw [← decTape_reverse]
  apply finish_text _ (decTape_ne_nil n) (decTape_noNul n) (decTape_short lo hi)
  unfold decTape
  by_cases negative : n < 0
  · rw [if_pos negative, if_pos negative]
    exact digits.push (ascii '-')
  · rw [if_neg negative, if_neg negative, List.append_nil]
    exact digits

theorem decText_isDecimal {n : Int} (other : n ≠ -2147483648) : IsDecimal (decText n) n := by
  rw [decText, if_neg other]
  have reads := decimal.read_numeral n.natAbs
  by_cases negative : n < 0
  · rw [if_pos negative]
    constructor
    · refine Or.inr ⟨_, rfl, decimal.numeral_canonical _, fun zero => ?_⟩
      rw [zero] at reads
      have value : some 0 = some n.natAbs := reads
      have := Option.some.inj value
      omega
    · rw [readInt, if_pos rfl, reads, Option.map_some, Option.some.injEq]
      omega
  · rw [if_neg negative]
    constructor
    · exact Or.inl (decimal.numeral_canonical _)
    · cases split : decimal.numeral n.natAbs with
      | nil => exact absurd split (decimal.numeral_canonical _).nonempty
      | cons c rest =>
        obtain ⟨d, small, rfl⟩ := decimal.mem_numeral (split ▸ List.mem_cons_self)
        have unsigned : decimal.digit d ≠ ascii '-' := (decDigit_ne small).2
        rw [readInt, if_neg unsigned, ← split, reads, Option.map_some,
          Option.some.injEq]
        omega

/-- A sign alone is no number. -/
theorem sign_not_decimal (n : Int) : ¬ IsDecimal [ascii '-'] n := by
  intro decimal
  rcases decimal.canonical with digits | ⟨ds, split, digits, _⟩
  · have sign := digits.digits _ (List.mem_singleton_self _)
    exact absurd sign (by decide)
  · exact digits.nonempty (List.cons.inj split).2.symm

/-- **When `dec2str` returns the decimal numeral**: for every `int` but the smallest. -/
theorem dec2str_iff (buf : Mem) (n : Int32) :
    IsDecimal (textOf (dec2str buf n.toInt)) n.toInt ↔ n.toInt ≠ -2147483648 := by
  have lo := n.le_toInt
  have hi := n.toInt_lt
  rw [dec2str_text buf (by omega) (by omega)]
  constructor
  · intro decimal smallest
    rw [smallest] at decimal
    exact sign_not_decimal _ decimal
  · exact decText_isDecimal

/-- The smallest `int` comes out as a sign alone. -/
theorem dec2str_smallest : ¬ ∀ (buf : Mem) (n : Int32),
    IsDecimal (textOf (dec2str buf n.toInt)) n.toInt := by
  intro all
  have smallest := all (fun _ => 0) Int32.minValue
  rw [dec2str_text _ (by decide) (by decide)] at smallest
  exact sign_not_decimal _ smallest

/-! ## Hexadecimal -/

def hexValue (c : UInt8) : Option Nat :=
  if 0x30 ≤ c.toNat ∧ c.toNat ≤ 0x39 then some (c.toNat - 0x30)
  else if 0x41 ≤ c.toNat ∧ c.toNat ≤ 0x46 then some (c.toNat - 0x37)
  else none

def hexadecimal : Numerals UInt8 where
  base := 16
  two_le := by decide
  digit := asciiNumbers
  value := hexValue
  value_digit := by decide

/-- The digits of a number, at least two of them. -/
def hexDigits (n : Nat) : List UInt8 :=
  if n < 0x10 then 0x30 :: hexadecimal.numeral n else hexadecimal.numeral n

def hexText (n : Nat) : List UInt8 := 0x30 :: ascii 'x' :: hexDigits n

/-- `0x` and upper-case digits without leading zeros, but at least two; their
value is `n`. -/
structure IsHex (text : List UInt8) (n : Nat) : Prop where
  form : ∃ ds, text = 0x30 :: ascii 'x' :: ds ∧ (∀ c ∈ ds, (hexValue c).isSome) ∧
    hexadecimal.read ds = some n ∧ (n < 0x10 → ds.length = 2) ∧
    (0x10 ≤ n → 1 < ds.length ∧ ds.head? ≠ some 0x30)

theorem asciiNumbers_ne {d : Nat} (h : d < 16) :
    asciiNumbers d ≠ 0 ∧ asciiNumbers d ≠ ascii '=' := by
  have all : ∀ d, d < 16 → asciiNumbers d ≠ 0 ∧ asciiNumbers d ≠ ascii '=' := by decide
  exact all d h

theorem mem_hexText {n : Nat} {c : UInt8} (listed : c ∈ hexText n) : c ≠ 0 ∧ c ≠ ascii '=' := by
  have digit {n : Nat} (listed : c ∈ hexadecimal.numeral n) : c ≠ 0 ∧ c ≠ ascii '=' := by
    obtain ⟨d, small, rfl⟩ := hexadecimal.mem_numeral listed
    exact asciiNumbers_ne small
  rw [hexText, hexDigits] at listed
  rcases List.mem_cons.mp listed with rfl | later
  · decide
  rcases List.mem_cons.mp later with rfl | digits
  · decide
  split at digits
  · rcases List.mem_cons.mp digits with rfl | digits
    · decide
    · exact digit digits
  · exact digit digits

theorem read_hexDigits (n : Nat) : hexadecimal.read (hexDigits n) = some n := by
  unfold hexDigits
  split
  · exact hexadecimal.read_zero_cons (hexadecimal.read_numeral n)
  · exact hexadecimal.read_numeral n

theorem hexText_inj {n n' : Nat} (same : hexText n = hexText n') : n = n' := by
  have digits : hexDigits n = hexDigits n' := (List.cons.inj (List.cons.inj same).2).2
  have reads := read_hexDigits n
  rw [digits, read_hexDigits n'] at reads
  exact (Option.some.inj reads).symm

theorem hexText_isHex (n : Nat) : IsHex (hexText n) n := by
  have canonical := hexadecimal.numeral_canonical n
  refine ⟨hexDigits n, rfl, fun c listed => ?_, read_hexDigits n, fun small => ?_, fun large => ?_⟩
  · unfold hexDigits at listed
    split at listed
    · rcases List.mem_cons.mp listed with rfl | digit
      · decide
      · exact canonical.digits c digit
    · exact canonical.digits c listed
  · rw [hexDigits, if_pos small, Numerals.numeral]
    split
    · rfl
    · next pos =>
      have short := hexadecimal.length_text (k := 1) (show n < 16 ^ 1 by omega)
      have some := List.length_pos_iff.mpr (hexadecimal.text_ne_nil pos)
      rw [List.length_cons]
      omega
  · have pos : n ≠ 0 := by omega
    have long : 1 < (hexadecimal.numeral n).length := by
      have rest := hexadecimal.text_ne_nil (show n / 16 ≠ 0 by omega)
      have some := List.length_pos_iff.mpr rest
      have last : hexadecimal.text n = hexadecimal.text (n / 16) ++ [asciiNumbers (n % 16)] :=
        hexadecimal.text_div pos
      rw [Numerals.numeral, if_neg pos, last, List.length_append, List.length_singleton]
      omega
    rw [hexDigits, if_neg (by omega)]
    exact ⟨long, canonical.leading long⟩

/-- What is on the tape at the end, in the order it was written. -/
def hexTape (n : Nat) : List UInt8 :=
  (if n = 0 then [0x30] else []) ++ (Nat.digits 16 n).map asciiNumbers ++
    (if n < 0x10 then [0x30] else []) ++ [ascii 'x'] ++ [0x30]

theorem hexTape_reverse (n : Nat) : (hexTape n).reverse = hexText n := by
  have digits : (hexTape n).reverse = 0x30 :: ascii 'x' ::
      ((if n < 0x10 then [0x30] else []) ++
        (((Nat.digits 16 n).map asciiNumbers).reverse ++ (if n = 0 then [0x30] else []))) := by
    simp only [hexTape, List.reverse_append, List.append_assoc, List.singleton_append]
    split <;> split <;> rfl
  have number : ((Nat.digits 16 n).map asciiNumbers).reverse ++ (if n = 0 then [0x30] else []) =
      hexadecimal.numeral n := by
    rw [Numerals.numeral]
    by_cases zero : n = 0
    · subst zero
      rfl
    · rw [if_neg zero, if_neg zero, List.append_nil]
      rfl
  rw [digits, number, hexText, hexDigits]
  split <;> rfl

theorem nibble (n : Nat) : n % 256 &&& 0x0F = n % 16 := by
  rw [show (0x0F : Nat) = 2 ^ 4 - 1 from rfl, Nat.and_two_pow_sub_one_eq_mod]
  omega

/-- **What `hex2str` returns**, whatever its buffer held. -/
theorem hex2str_text (buf : Mem) {n : Nat} (word : n < 4294967296) :
    textOf (hex2str buf n) = hexText n := by
  have start : (if n = 0 then (⟨1, strncpy buf zeroLiteral 2⟩ : Tape) else ⟨0, buf⟩).Holds
      (if n = 0 then [0x30] else []) := by
    split
    · exact (Tape.Holds.empty buf).push 0x30
    · exact Tape.Holds.empty buf
  have digits : (putDigits (fun n => asciiNumbers (n % 256 &&& 0x0F)) (fun n => n >>> 4) 32 n
      _).Holds _ := putDigits_holds hexadecimal (fun n => by rw [nibble]; rfl)
    (fun n => Nat.shiftRight_eq_div_pow n 4) (show n < 2 ^ 32 by omega) start
  have short : (hexTape n).length < 80 := by
    have few : (Nat.digits 16 n).length ≤ 8 :=
      (Nat.digits_length_le_iff (by decide) _).mpr (by omega)
    have first : (if n = 0 then [0x30] else [] : List UInt8).length ≤ 1 := by split <;> simp
    have pad : (if n < 0x10 then [0x30] else [] : List UInt8).length ≤ 1 := by split <;> simp
    simp only [hexTape, List.length_append, List.length_map, List.length_singleton]
    omega
  have noNul : 0 ∉ hexTape n := by
    intro zero
    have listed : 0 ∈ hexText n := by
      rw [← hexTape_reverse]
      exact List.mem_reverse.mpr zero
    exact (mem_hexText listed).1 rfl
  rw [← hexTape_reverse]
  apply finish_text _ (by simp [hexTape]) noNul short
  unfold hexTape
  apply Tape.Holds.push
  apply Tape.Holds.push
  by_cases pad : n < 0x10
  · rw [if_pos pad, if_pos pad]
    exact digits.push 0x30
  · rw [if_neg pad, if_neg pad, List.append_nil]
    exact digits

/-- **`hex2str` returns the hexadecimal numeral**, a different one for each number. -/
theorem hex2str_numeral (buf buf' : Mem) (n n' : UInt32) :
    IsHex (textOf (hex2str buf n.toNat)) n.toNat ∧
    (textOf (hex2str buf n.toNat) = textOf (hex2str buf' n'.toNat) → n = n') := by
  rw [hex2str_text buf n.toNat_lt, hex2str_text buf' n'.toNat_lt]
  constructor
  · exact hexText_isHex n.toNat
  · intro same
    exact UInt32.toNat_inj.mp (hexText_inj same)

end KessOS
