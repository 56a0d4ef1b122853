import KessOS.InitVmm
import KessOS.OutOfFrames

/-!
# What ring 3 can reach

`map_page` gives every entry the same flags, and the processor lets an access
pass that all four entries of a walk let pass.

* `reaches_unprotected`: in every state of a run, whatever is mapped can be read
  and written from ring 3;
* `initVmm_exposed`: after `init_vmm` ring 3 reaches the first six gigabytes and
  nothing else, and can map any page of these anew.
-/

namespace KessOS.Vmm

open Demand (Ledger)

/-! ## Accesses -/

/-- The entry lets an access from ring 3 pass. -/
def passes (write : Bool) (entry : Nat) : Bool :=
  present entry && entry &&& pageBitUsUser != 0 && (!write || entry &&& pageBitRwWritable != 0)

/-- The walk of an access from ring 3. -/
def userTableAt (k : Image) (m : Mem) (write : Bool) (a : Nat) : Nat → Option Nat
  | 0 => some k.pml4
  | l + 1 => (userTableAt k m write a l).bind fun table =>
    let entry := m.read64 (table + 8 * index l a)
    if passes write entry then some (entry &&& pageAddrMask) else none

/-- The physical address an access reaches, unless it faults. -/
def userAccess (k : Image) (m : Mem) (write : Bool) (a : Nat) : Option Nat :=
  (userTableAt k m write a 3).bind fun pt =>
    let entry := m.read64 (pt + 8 * index 3 a)
    if passes write entry then some ((entry &&& pageAddrMask) + a % 4096) else none

theorem passes_flags {entry : Nat} (flags : entry % 8 = 7) (write : Bool) :
    passes write entry = true := by
  have bit {i : Nat} (low : i < 3) : entry.testBit i = true := by
    have seven : (entry % 2 ^ 3).testBit i = entry.testBit i := by
      rw [Nat.testBit_mod_two_pow]
      simp [low]
    rw [← seven, show entry % 2 ^ 3 = 7 from flags]
    obtain rfl | rfl | rfl : i = 0 ∨ i = 1 ∨ i = 2 := by omega
    all_goals rfl
  have set {i : Nat} (low : i < 3) : entry &&& 1 <<< i ≠ 0 := by
    intro zero
    have there : (entry &&& 1 <<< i).testBit i = true := by simp [bit low]
    rw [zero] at there
    simp at there
  simp only [passes, present, pageBitPPresent, pageBitUsUser, pageBitRwWritable, Bool.and_eq_true,
    Bool.or_eq_true, bne_iff_ne]
  exact ⟨⟨set (by omega), set (by omega)⟩, Or.inr (set (by omega))⟩

/-- The entries of walks that are present have all flags. -/
def Open (k : Image) (m : Mem) : Prop :=
  ∀ a l f, l ≤ 3 → tableAt k m a l = some f →
    present (m.read64 (f + 8 * index l a)) = true → m.read64 (f + 8 * index l a) % 8 = 7

section
variable {k : Image} {m : Mem} (h : Open k m)
include h

theorem Open.entry (write : Bool) {a l f : Nat} (hl : l ≤ 3) (there : tableAt k m a l = some f) :
    passes write (m.read64 (f + 8 * index l a)) = present (m.read64 (f + 8 * index l a)) := by
  cases on : present (m.read64 (f + 8 * index l a)) with
  | true => exact passes_flags (h a l f hl there on) write
  | false => simp [passes, on]

theorem Open.userTableAt_eq (write : Bool) (a : Nat) {l : Nat} (hl : l ≤ 3) :
    userTableAt k m write a l = tableAt k m a l := by
  induction l with
  | zero => rfl
  | succ l ih =>
    rw [userTableAt, ih (by omega), tableAt]
    cases there : tableAt k m a l with
    | none => rfl
    | some f => simp only [Option.bind_some, h.entry write (by omega) there]

/-- Nothing that is mapped is refused. -/
theorem Open.userAccess_eq (write : Bool) (a : Nat) : userAccess k m write a = translate k m a := by
  rw [userAccess, h.userTableAt_eq write a (Nat.le_refl 3), translate, leafAt]
  cases there : tableAt k m a 3 with
  | none => rfl
  | some pt =>
    simp only [Option.bind_some, h.entry write (Nat.le_refl 3) there]
    split <;> rfl

end

section
variable {k : Image} {p : Plan} {s : Vmm} {L : Ledger Slot Nat} {t : Tree}

theorem Rep.table (h : Rep k p s L t) {a l f : Nat} (hl : l ≤ 3)
    (there : tableAt k s.mem a l = some f) : IsTable L (slot l a) ∧ f = t.frame (slot l a) := by
  obtain ⟨on, off⟩ := h.tableAt_eq a l hl
  by_cases hx : IsTable L (slot l a)
  · rw [on hx] at there
    exact ⟨hx, (Option.some.inj there).symm⟩
  · rw [off hx] at there
    cases there

theorem Rep.open (h : Rep k p s L t) : Open k s.mem := by
  intro a l f hl there on
  obtain ⟨hx, rfl⟩ := h.table hl there
  by_cases last : l = 3
  · subst last
    have held := slot_succ_table.mp hx
    rw [h.leaf_entry held] at on ⊢
    have ne : t.leaf (pageNo a) ≠ 0 := by
      intro zero
      rw [zero] at on
      cases on
    obtain ⟨⟨v, _, _, word⟩, _⟩ := h.word _ ne
    rw [word, entry_eq]
    have := mask_aligned v
    omega
  · have below : (slot l a).1 < 3 := by
      show l < 3
      omega
    have held := (h.present_iff hx below (index_lt l a)).mp on
    rw [(h.inner _ hx below _ (index_lt l a)).1 held]
    have := (h.page _ held).1
    omega

end

/-- **Whatever is mapped is open to ring 3**, in every state of a run. -/
theorem reaches_unprotected {k : Image} {s : Vmm} (h : Reaches k s) (write : Bool) (a : Nat) :
    userAccess k s.mem write a = translate k s.mem a := by
  obtain ⟨⟨p, L, t, rep, _⟩, _⟩ := reaches_tracked h
  exact rep.open.userAccess_eq write a

theorem reaches_unprotected_twoPages :
    userAccess lowRoot twoPages.mem true 0x5000 = translate lowRoot twoPages.mem 0x5000 :=
  reaches_unprotected reaches_twoPages true 0x5000

/-! ## A leaf entry overwritten -/

theorem tableAt_congr {k : Image} {m m' : Mem} {a l : Nat}
    (same : ∀ j, j < l → ∀ f, tableAt k m a j = some f →
      m'.read64 (f + 8 * index j a) = m.read64 (f + 8 * index j a)) :
    tableAt k m' a l = tableAt k m a l := by
  induction l with
  | zero => rfl
  | succ l ih =>
    rw [tableAt, tableAt, ih fun j hj => same j (by omega)]
    cases there : tableAt k m a l with
    | none => rw [Option.bind_none, Option.bind_none]
    | some f => simp only [Option.bind_some, same l (by omega) f there]

section
variable {k : Image} {p : Plan} {s : Vmm} {L : Ledger Slot Nat} {t : Tree}

/-- Where the leaf entry of an address lies. -/
def leafEntry (t : Tree) (a : Nat) : Nat := t.frame (slot 3 a) + 8 * index 3 a

theorem Rep.entry_kept (h : Rep k p s L t) {a : Nat} (ha : slot 3 a ∈ L.held) (v : Nat)
    {b l f : Nat} (hl : l ≤ 3) (there : tableAt k s.mem b l = some f)
    (ne : slot l b ≠ slot 3 a ∨ index l b ≠ index 3 a) :
    (s.mem.write64 (leafEntry t a) v).read64 (f + 8 * index l b) =
      s.mem.read64 (f + 8 * index l b) := by
  obtain ⟨hx, rfl⟩ := h.table hl there
  exact Mem.read64_write64_ne _ _
    (h.entry_apart (Or.inr ha) hx (index_lt 3 a) (index_lt l b) ne)

theorem Rep.tables_kept (h : Rep k p s L t) {a : Nat} (ha : slot 3 a ∈ L.held) (v b : Nat) {l : Nat}
    (hl : l ≤ 3) : tableAt k (s.mem.write64 (leafEntry t a) v) b l = tableAt k s.mem b l := by
  refine tableAt_congr fun j hj f there => h.entry_kept ha v (by omega) there (Or.inl ?_)
  intro same
  have level : j = 3 := congrArg Prod.fst same
  omega

theorem Rep.overwritten (h : Rep k p s L t) {a : Nat} (ha : slot 3 a ∈ L.held) {v : Nat}
    (word : v < 18446744073709551616) (flags : v % 8 = 7) :
    Open k (s.mem.write64 (leafEntry t a) v) ∧
      translate k (s.mem.write64 (leafEntry t a) v) a = some ((v &&& pageAddrMask) + a % 4096) ∧
      ∀ b, pageNo b ≠ pageNo a →
        translate k (s.mem.write64 (leafEntry t a) v) b = translate k s.mem b := by
  have new : (s.mem.write64 (leafEntry t a) v).read64 (leafEntry t a) = v :=
    Mem.read64_write64 _ _ word
  have here := (h.tableAt_eq a 3 (Nat.le_refl 3)).1 (Or.inr ha)
  refine ⟨?_, ?_, ?_⟩
  · intro b l f hl there on
    rw [h.tables_kept ha v b hl] at there
    by_cases same : slot l b = slot 3 a ∧ index l b = index 3 a
    · obtain ⟨_, rfl⟩ := h.table hl there
      rw [same.1, same.2]
      have value : (s.mem.write64 (leafEntry t a) v).read64
          (t.frame (slot 3 a) + 8 * index 3 a) = v := new
      rw [value]
      exact flags
    · have kept := h.entry_kept ha v hl there (not_and_or.mp same)
      rw [kept] at on ⊢
      exact h.open b l f hl there on
  · have on : present v = true := (Vmm.present_iff v).mpr (by omega)
    rw [translate, leafAt, h.tables_kept ha v a (Nat.le_refl 3), here, Option.bind_some]
    have value : (s.mem.write64 (leafEntry t a) v).read64
        (t.frame (slot 3 a) + 8 * index 3 a) = v := new
    simp only [value, on, if_true, Option.map_some]
  · intro b other
    rw [translate, translate, leafAt, leafAt, h.tables_kept ha v b (Nat.le_refl 3)]
    cases there : tableAt k s.mem b 3 with
    | none => rw [Option.bind_none, Option.bind_none]
    | some f =>
      have ne : slot 3 b ≠ slot 3 a ∨ index 3 b ≠ index 3 a := by
        rw [← not_and_or]
        rintro ⟨slots, entries⟩
        exact other (by rw [pageNo_eq b, pageNo_eq a, slots, entries])
      have kept := h.entry_kept ha v (Nat.le_refl 3) there ne
      simp only [Option.bind_some, kept]

end

/-! ## After init_vmm -/

/-- Ring 3 reaches the first six gigabytes, and can have each page of these lead
to any page of physical memory without a change to the others. -/
structure Exposed (k : Image) (m : Mem) : Prop where
  whole : ∀ write a, a < 281474976710656 →
    userAccess k m write a = if a < gb * 6 then some a else none
  remap : ∀ a page, a < gb * 6 → page % 4096 = 0 → page < 4503599627370496 →
    ∃ entry, (∀ i, i < 8 → userAccess k m true (entry + i) = some (entry + i)) ∧
      ∀ write,
        userAccess k (m.write64 entry (page ||| flags)) write a = some (page + a % 4096) ∧
        ∀ b, b < 281474976710656 → b / 4096 ≠ a / 4096 →
          userAccess k (m.write64 entry (page ||| flags)) write b = userAccess k m write b

theorem InitSegment.served {k : Image} {s : Vmm} (h : InitSegment k s) (cleared : Cleared k s) :
    ∃ L t, Rep k h.plan (s.mapPages k initPages) L t ∧ L.used = 3079 := by
  cases mapPages_serves (h.rep cleared) initPages with
  | inl fails =>
    refine absurd ⟨Nat.zero_le _, ?_⟩ (fails.short 3079 (Nat.le_refl _))
    rw [initSlots_demand (Nat.le_refl _) h.frame_lt]
    simp [Ledger.empty, card_initSlots]
  | inr found =>
    obtain ⟨L, t, serves, rep, _⟩ := found
    exact ⟨L, t, rep, (serve_initPages h.frame_lt serves).1⟩

/-- **`init_vmm` leaves nothing of the first six gigabytes to the kernel alone.** -/
theorem initVmm_exposed {k : Image} (s : Vmm) (meminfo : Meminfo)
    (segment : InitSegment k (s.startVmm k meminfo)) : Exposed k (s.initVmm k meminfo).mem := by
  have cleared := startVmm_cleared (k := k) s meminfo
  have mapped := segment.mapped cleared
  obtain ⟨L, t, rep, used⟩ := segment.served cleared
  have whole (write : Bool) (a : Nat) (low : a < 281474976710656) :
      userAccess k (s.initVmm k meminfo).mem write a = if a < gb * 6 then some a else none := by
    rw [initVmm, rep.open.userAccess_eq]
    by_cases below : a < gb * 6
    · rw [if_pos below, mapped.identity a below]
    · rw [if_neg below, mapped.above a (by omega) low]
  refine ⟨whole, fun a page below aligned small => ?_⟩
  have held : slot 3 a ∈ L.held := by
    have leaf := rep.leafAt_some.mp (mapped.entry a below)
    rw [← pageNo_div]
    exact (rep.word _ (leaf.1 ▸ leaf.2)).2
  have frame : t.frame (slot 3 a) + 4096 ≤ 6442450944 := by
    obtain ⟨j, hj, same⟩ := rep.frame_taken held rfl
    have top := segment.below
    have first : segment.plan.frame j = (s.startVmm k meminfo).placement + 4096 * j := rfl
    omega
  have value : page ||| flags = page + 7 := by
    rw [flags_eq]
    exact Bits.or_low 3 (by omega) (by omega)
  have masked : (page ||| flags) &&& pageAddrMask = page := by
    rw [value, mask_eq]
    omega
  obtain ⟨opened, there, others⟩ := rep.overwritten held (v := page ||| flags)
    (by rw [value]; omega) (by rw [value]; omega)
  rw [masked] at there
  have index := index_lt 3 a
  refine ⟨leafEntry t a, fun i hi => ?_, fun write => ⟨?_, fun b low other => ?_⟩⟩
  · have near : leafEntry t a + i < gb * 6 := by
      simp only [leafEntry, gb]
      omega
    rw [whole true _ (by simp only [gb] at near; omega), if_pos near]
  · rw [initVmm, opened.userAccess_eq, there]
  · rw [initVmm, opened.userAccess_eq, rep.open.userAccess_eq, others b]
    simp only [gb] at below
    simp only [pageNo]
    omega

theorem initVmm_exposed_lowRoot :
    Exposed lowRoot (initVmm lowRoot (initial (oneSegment 0x100000 3079)) oneEntry).mem :=
  initVmm_exposed (initial (oneSegment 0x100000 3079)) oneEntry lowRoot_initSegment

end KessOS.Vmm
