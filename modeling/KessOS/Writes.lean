import Mathlib.Logic.Function.Basic

/-!
# Sequences of writes

A store is a function from indices to values, a sequence of writes a list of
pairs, latest first. Where all writes put the same value only the set of the
indices matters.
-/

namespace KessOS

variable {ι α : Type} [DecidableEq ι]

/-- The store after the writes. -/
def writeAll (p : ι → α) (writes : List (ι × α)) : ι → α :=
  writes.foldr (fun w p => Function.update p w.1 w.2) p

@[simp] theorem writeAll_nil (p : ι → α) : writeAll p [] = p := rfl

@[simp] theorem writeAll_cons (p : ι → α) (w : ι × α) (writes : List (ι × α)) :
    writeAll p (w :: writes) = Function.update (writeAll p writes) w.1 w.2 := rfl

/-- What a store holds at an index comes from the writes and from what it held there. -/
theorem writeAll_congr (writes : List (ι × α)) {p p' : ι → α} {i : ι} (same : p i = p' i) :
    writeAll p writes i = writeAll p' writes i := by
  induction writes with
  | nil => exact same
  | cons w writes ih =>
    rw [writeAll_cons, writeAll_cons]
    by_cases here : i = w.1
    · rw [here, Function.update_self, Function.update_self]
    · rw [Function.update_of_ne here, Function.update_of_ne here, ih]

theorem writeAll_other (p : ι → α) {writes : List (ι × α)} {i : ι}
    (apart : ∀ w ∈ writes, w.1 ≠ i) : writeAll p writes i = p i := by
  induction writes with
  | nil => rfl
  | cons w writes ih =>
    have first := apart w List.mem_cons_self
    rw [writeAll_cons, Function.update_of_ne (Ne.symm first)]
    exact ih fun w' listed => apart w' (List.mem_cons_of_mem _ listed)

/-- A written index holds the value that all writes put. -/
theorem writeAll_mem (p : ι → α) {writes : List (ι × α)} {v : α} (same : ∀ w ∈ writes, w.2 = v)
    {i : ι} (written : (i, v) ∈ writes) : writeAll p writes i = v := by
  induction writes with
  | nil => cases written
  | cons w writes ih =>
    rw [writeAll_cons]
    by_cases here : i = w.1
    · rw [here, Function.update_self]
      exact same w List.mem_cons_self
    · rw [Function.update_of_ne here]
      apply ih fun w' listed => same w' (List.mem_cons_of_mem _ listed)
      rcases List.mem_cons.mp written with first | later
      · exact absurd (congrArg Prod.fst first) here
      · exact later

end KessOS
