import KessOS.Acpi

/-!
# The search for the FADT

`locate_fadt` looks at as many entries as the length field of the RSDT leaves
room for, and takes a `NULL` entry for a match: `strncmp` compares nothing when
a pointer is `NULL`.

* `mem_examined`: the entries it looks at;
* `search_iff`: the tables in which it stays inside and finds the first FADT.
-/

namespace KessOS.Acpi

/-- `locate_fadt` with its result, on the static variables. -/
def runLocateFadt (m : Mem) (a : Tables) : Nat × Tables :=
  match locateFadt m a with
  | some fadt => (1, { a with fadt := fadt })
  | none => (0, a)

/-- The indices of the entries it reads. -/
def examined (m : Mem) (a : Tables) : List Int :=
  visited u32 a.rsdtEntries (fun i => strncmp m facp (table m a.rsdt i) 0 4 != 0) intFuel 0

/-- Entry `i` is inside the `length` bytes, behind the header. -/
def EntryInside (m : Mem) (rsdt : Nat) (i : Int) : Prop :=
  0 ≤ i ∧ headerSize + 4 * i + 4 ≤ tableLength m rsdt

/-- The static variables when `acpi_init` calls `locate_fadt`. -/
def beforeSearch (m : Mem) (rsdp fadt : Nat) : Tables :=
  ⟨rsdtOf m rsdp, countEntries (tableLength m (rsdtOf m rsdp)), fadt⟩

/-- The walk stays inside the table, and returns the first FADT or nothing. -/
structure FindsFirst (m : Mem) (rsdp fadt : Nat) : Prop where
  inside : ∀ i, i ∈ examined m (beforeSearch m rsdp fadt) → EntryInside m (rsdtOf m rsdp) i
  returns : (runLocateFadt m (beforeSearch m rsdp fadt)).1 = 1 ↔
    ∃ x : Nat, EntryInside m (rsdtOf m rsdp) x ∧ IsFacp m (table m (rsdtOf m rsdp) x)
  sets : ∀ x : Nat, EntryInside m (rsdtOf m rsdp) x → IsFacp m (table m (rsdtOf m rsdp) x) →
    (∀ y : Nat, y < x → ¬ IsFacp m (table m (rsdtOf m rsdp) y)) →
    (runLocateFadt m (beforeSearch m rsdp fadt)).2 =
      { beforeSearch m rsdp fadt with fadt := table m (rsdtOf m rsdp) x }
  leaves : (∀ x : Nat, EntryInside m (rsdtOf m rsdp) x →
      ¬ IsFacp m (table m (rsdtOf m rsdp) x)) →
    runLocateFadt m (beforeSearch m rsdp fadt) = (0, beforeSearch m rsdp fadt)

/-! ## What the walk does -/

theorem not_stops_iff (m : Mem) (rsdt : Nat) (i : Int) :
    (strncmp m facp (table m rsdt i) 0 4 != 0) = false ↔ ¬ Stops m (table m rsdt i) := by
  rw [← strncmp_stops m (table_lt m rsdt i), Bool.not_eq_true]

/-- The walk looks at an entry when it stopped at none before it. -/
theorem mem_examined (m : Mem) (rsdp fadt : Nat) (i : Int) :
    i ∈ examined m (beforeSearch m rsdp fadt) ↔
      ∃ x, x < countEntries (tableLength m (rsdtOf m rsdp)) ∧
        (∀ y, y < x → ¬ Stops m (table m (rsdtOf m rsdp) (int32 y))) ∧ i = int32 x := by
  refine (mem_visited_u32 _ (countEntries_lt _) i).trans ?_
  simp only [beforeSearch, not_stops_iff]

theorem runLocateFadt_stop {m : Mem} {rsdp fadt x : Nat} (stop : FirstStop m (rsdtOf m rsdp) x) :
    runLocateFadt m (beforeSearch m rsdp fadt) =
      (1, { beforeSearch m rsdp fadt with fadt := table m (rsdtOf m rsdp) (int32 x) }) := by
  have found : locateFadt m (beforeSearch m rsdp fadt) =
      some (table m (rsdtOf m rsdp) (int32 x)) :=
    (locateFadt_some rfl).mpr ⟨x, stop, rfl⟩
  rw [runLocateFadt, found]

theorem runLocateFadt_pass {m : Mem} {rsdp fadt : Nat}
    (pass : ¬ ∃ x, FirstStop m (rsdtOf m rsdp) x) :
    runLocateFadt m (beforeSearch m rsdp fadt) = (0, beforeSearch m rsdp fadt) := by
  have nothing : locateFadt m (beforeSearch m rsdp fadt) = none := by
    rw [Option.eq_none_iff_forall_not_mem]
    intro t found
    obtain ⟨x, stop, _⟩ := (locateFadt_some rfl).mp found
    exact pass ⟨x, stop⟩
  rw [runLocateFadt, nothing]

/-- Somewhere at or before an entry the walk stops at, it stops first. -/
theorem exists_firstStop {m : Mem} {rsdt x : Nat}
    (counted : x < countEntries (tableLength m rsdt)) (stops : Stops m (table m rsdt (int32 x))) :
    ∃ z, z ≤ x ∧ FirstStop m rsdt z := by
  classical
  have some_stop : ∃ z, Stops m (table m rsdt (int32 z)) := ⟨x, stops⟩
  have first := Nat.find_min' some_stop stops
  refine ⟨Nat.find some_stop, first, ?_⟩
  exact ⟨by omega, Nat.find_spec some_stop, fun y hy => Nat.find_min some_stop hy⟩

/-- A table shorter than its header has room for 2^32 - 9 entries or more. -/
theorem countEntries_short {m : Mem} {rsdt : Nat} (short : tableLength m rsdt < headerSize) :
    4294967287 ≤ countEntries (tableLength m rsdt) := by
  unfold countEntries headerSize at *
  omega

theorem entryInside_iff {m : Mem} {rsdt x : Nat} :
    EntryInside m rsdt x ↔ headerSize ≤ tableLength m rsdt ∧ x < entries m rsdt := by
  unfold EntryInside entries headerSize
  omega

/-! ## Tables no shorter than their header -/

section
variable {m : Mem} {rsdp fadt : Nat}

/-- The first entry the walk stops at, in the numbers of the table. -/
theorem firstStop_iff (long : headerSize ≤ tableLength m (rsdtOf m rsdp)) {x : Nat} :
    FirstStop m (rsdtOf m rsdp) x ↔ x < entries m (rsdtOf m rsdp) ∧
      Stops m (table m (rsdtOf m rsdp) x) ∧
        ∀ y : Nat, y < x → ¬ Stops m (table m (rsdtOf m rsdp) y) := by
  have few := entries_lt m (rsdtOf m rsdp)
  have small {y : Nat} (below : y < entries m (rsdtOf m rsdp)) : int32 y = y :=
    int32_small (by omega)
  constructor
  · rintro ⟨counted, stops, first⟩
    rw [countEntries_eq long] at counted
    rw [small counted] at stops
    refine ⟨counted, stops, fun y before => ?_⟩
    have pass := first y before
    rwa [small (by omega)] at pass
  · rintro ⟨inside, stops, first⟩
    refine ⟨by rwa [countEntries_eq long], by rwa [small inside], fun y before => ?_⟩
    rw [small (by omega)]
    exact first y before

theorem examined_inside (long : headerSize ≤ tableLength m (rsdtOf m rsdp)) {i : Int}
    (looked : i ∈ examined m (beforeSearch m rsdp fadt)) : EntryInside m (rsdtOf m rsdp) i := by
  obtain ⟨x, counted, _, rfl⟩ := (mem_examined m rsdp fadt i).mp looked
  have few := entries_lt m (rsdtOf m rsdp)
  rw [countEntries_eq long] at counted
  rw [int32_small (by omega)]
  exact entryInside_iff.mpr ⟨long, counted⟩

end

/-- An entry that holds `NULL` is never looked at before a FADT. -/
def NullBehind (m : Mem) (rsdt : Nat) : Prop :=
  ∀ x : Nat, x < entries m rsdt → table m rsdt x = 0 →
    ∃ y : Nat, y ≤ x ∧ IsFacp m (table m rsdt y)

section
variable {m : Mem} {rsdp : Nat} (fadt : Nat)

theorem findsFirst_of_nullBehind (long : headerSize ≤ tableLength m (rsdtOf m rsdp))
    (behind : NullBehind m (rsdtOf m rsdp)) : FindsFirst m rsdp fadt := by
  have few := entries_lt m (rsdtOf m rsdp)
  -- the walk stops at a FADT, and where it stops no earlier entry is one
  have stop_facp {x : Nat} (stop : FirstStop m (rsdtOf m rsdp) x) :
      x < entries m (rsdtOf m rsdp) ∧ IsFacp m (table m (rsdtOf m rsdp) x) := by
    obtain ⟨inside, stops, first⟩ := (firstStop_iff long).mp stop
    refine ⟨inside, ?_⟩
    rcases stops with null | facp
    · obtain ⟨y, before, facp⟩ := behind x inside null
      by_cases here : y = x
      · rwa [← here]
      · exact absurd (Or.inr facp) (first y (by omega))
    · exact facp
  have facp_stop {x : Nat} (inside : EntryInside m (rsdtOf m rsdp) x)
      (facp : IsFacp m (table m (rsdtOf m rsdp) x)) :
      ∃ z, z ≤ x ∧ FirstStop m (rsdtOf m rsdp) z := by
    have below := (entryInside_iff.mp inside).2
    apply exists_firstStop
    · rwa [countEntries_eq long]
    · rw [int32_small (by omega)]
      exact Or.inr facp
  constructor
  · exact fun i => examined_inside long
  · constructor
    · intro one
      by_contra nothing
      have pass : ¬ ∃ x, FirstStop m (rsdtOf m rsdp) x := by
        rintro ⟨x, stop⟩
        obtain ⟨inside, facp⟩ := stop_facp stop
        exact nothing ⟨x, entryInside_iff.mpr ⟨long, inside⟩, facp⟩
      rw [runLocateFadt_pass pass] at one
      exact absurd one Nat.zero_ne_one
    · rintro ⟨x, inside, facp⟩
      obtain ⟨z, _, stop⟩ := facp_stop inside facp
      rw [runLocateFadt_stop stop]
  · intro x inside facp first
    obtain ⟨z, before, stop⟩ := facp_stop inside facp
    obtain ⟨below, found⟩ := stop_facp stop
    have same : z = x := by
      by_contra other
      exact first z (by omega) found
    rw [runLocateFadt_stop stop, int32_small (by omega), same]
  · intro none
    apply runLocateFadt_pass
    rintro ⟨x, stop⟩
    obtain ⟨below, found⟩ := stop_facp stop
    exact none x (entryInside_iff.mpr ⟨long, below⟩) found

/-- A table shorter than its header has no entry inside, and the walk looks at one. -/
theorem FindsFirst.long {fadt : Nat} (h : FindsFirst m rsdp fadt) :
    headerSize ≤ tableLength m (rsdtOf m rsdp) := by
  by_contra short
  have many := countEntries_short (Nat.lt_of_not_le short)
  have looked : (0 : Int) ∈ examined m (beforeSearch m rsdp fadt) :=
    (mem_examined m rsdp fadt 0).mpr
      ⟨0, by omega, fun y before => absurd before (Nat.not_lt_zero y), rfl⟩
  have room := (h.inside 0 looked).2
  omega

theorem FindsFirst.nullBehind {fadt : Nat} (h : FindsFirst m rsdp fadt) :
    NullBehind m (rsdtOf m rsdp) := by
  classical
  intro x inside null
  by_contra nothing
  have long := h.long
  have few := entries_lt m (rsdtOf m rsdp)
  have stops : Stops m (table m (rsdtOf m rsdp) (int32 x)) := by
    rw [int32_small (by omega)]
    exact Or.inl null
  obtain ⟨z, before, stop⟩ := exists_firstStop (by rwa [countEntries_eq long]) stops
  -- the walk stops at a `NULL` entry, so its result is not a FADT
  have zero : table m (rsdtOf m rsdp) z = 0 := by
    rcases ((firstStop_iff long).mp stop).2.1 with null | facp
    · exact null
    · exact absurd ⟨z, before, facp⟩ nothing
  have one : (runLocateFadt m (beforeSearch m rsdp fadt)).1 = 1 := by
    rw [runLocateFadt_stop stop]
  have some_facp := h.returns.mp one
  obtain ⟨listed, facp⟩ := Nat.find_spec some_facp
  have earlier (y : Nat) (below : y < Nat.find some_facp) :
      ¬ IsFacp m (table m (rsdtOf m rsdp) y) := by
    intro facp
    have last := (entryInside_iff.mp listed).2
    exact Nat.find_min some_facp below ⟨entryInside_iff.mpr ⟨long, by omega⟩, facp⟩
  have result := h.sets _ listed facp earlier
  rw [runLocateFadt_stop stop, int32_small (by omega), zero] at result
  have same : 0 = table m (rsdtOf m rsdp) (Nat.find some_facp) := congrArg Tables.fadt result
  rw [← same, ← zero] at facp
  exact nothing ⟨z, before, facp⟩

/-- **The search** is right exactly when the table is no shorter than its header
and no `NULL` entry comes before a FADT. -/
theorem search_iff (m : Mem) (rsdp fadt : Nat) : FindsFirst m rsdp fadt ↔
    headerSize ≤ tableLength m (rsdtOf m rsdp) ∧ NullBehind m (rsdtOf m rsdp) :=
  ⟨fun h => ⟨h.long, h.nullBehind⟩, fun ⟨long, behind⟩ => findsFirst_of_nullBehind fadt long behind⟩

end

/-- An RSDT at `0x1000` with a `NULL` entry in front of the one of the FADT. -/
def nullFirst : Mem := fun x =>
  if x = 0x811 then 0x10
  else if x = 0x1004 then 44
  else if x = 0x1029 then 0x20
  else if 0x2000 ≤ x ∧ x < 0x2004 then facp (x - 0x2000)
  else 0

/-- The `NULL` entry is taken for the FADT. -/
theorem null_taken_for_fadt : ¬ ∀ (m : Mem) (rsdp fadt : Nat), FindsFirst m rsdp fadt := by
  intro all
  have behind := (all nullFirst 0x800 0).nullBehind
  obtain ⟨y, first, facp⟩ := behind 0 (by decide) (by decide)
  rw [Nat.le_zero.mp first] at facp
  exact absurd (facp 0 (by decide)) (by decide)

end KessOS.Acpi
