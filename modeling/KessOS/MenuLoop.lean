import Mathlib.Data.List.Induction

/-!
# The loop of the boot menu

`ReadKeyStroke` leaves `Key` alone when no key was pressed, and the loop does
not look at its status: the code still in `Key`, at first whatever was on the
stack, is acted upon again.

* `Decision`: what the pressed keys ask for;
* `menuLoop_keeps`: the loop's variables in every run;
* `boot_decision`: the loop does what the keys ask for exactly when every poll
  without a key finds a code in `Key` that means nothing.
-/

namespace KessOS.Bootloader

/-! ## The loop -/

/-- `Key.ScanCode`, the loop's variables and a record of the resets requested. -/
structure Menu where
  scanCode : Nat
  menuEntry : Nat
  loop : Nat
  legacyBoot : Nat
  resets : Nat
  deriving DecidableEq

/-- BOOT is selected; nothing was written to `Key`. -/
def Menu.start (scanCode : Nat) : Menu where
  scanCode := scanCode
  menuEntry := 1
  loop := 1
  legacyBoot := 0
  resets := 0

/-- What `ReadKeyStroke` finds. -/
inductive Poll where
  | key (scanCode : Nat)
  | notReady

def Poll.store (scanCode : Nat) : Poll → Nat
  | .key pressed => pressed
  | .notReady => scanCode

/-- The tests of the loop's body. A reset is a write of `0xFE` to port `0x64`. -/
def Menu.act (s : Menu) : Menu :=
  if s.scanCode = 2 ∧ s.menuEntry ≠ 0 then { s with menuEntry := 0 }
  else if s.scanCode = 1 ∧ s.menuEntry = 0 then { s with menuEntry := 1 }
  else if s.scanCode = 3 then
    if s.menuEntry = 1 then { s with loop := 0 }
    else if s.menuEntry = 0 then { s with resets := s.resets + 1 }
    else s
  else if s.scanCode = 4 ∧ s.menuEntry ≠ 0 then { s with loop := 0, legacyBoot := 1 }
  else s

def Menu.poll (s : Menu) (p : Poll) : Menu :=
  if s.loop = 0 then s else { s with scanCode := p.store s.scanCode }.act

def menuLoop (scanCode : Nat) (ps : List Poll) : Menu := ps.foldl Menu.poll (.start scanCode)

/-! ## What the keys ask for -/

inductive Entry where
  | boot
  | reboot
  deriving DecidableEq

/-- The entry selected, the boot chosen, with legacy support or not, and the
resets asked for. -/
structure Decision where
  entry : Entry
  booted : Option Bool
  resets : Nat
  deriving DecidableEq

def Decision.start : Decision := ⟨.boot, none, 0⟩

/-- Up and Down move, Right and Left boot, Right on REBOOT resets. -/
def Decision.press (d : Decision) (scanCode : Nat) : Decision :=
  match d.booted, d.entry with
  | some _, _ => d
  | none, .boot =>
    if scanCode = 2 then { d with entry := .reboot }
    else if scanCode = 3 then { d with booted := some false }
    else if scanCode = 4 then { d with booted := some true }
    else d
  | none, .reboot =>
    if scanCode = 1 then { d with entry := .boot }
    else if scanCode = 3 then { d with resets := d.resets + 1 }
    else d

/-- The keys among the polls, in order. -/
def pressed (ps : List Poll) : List Nat :=
  ps.filterMap fun p => match p with
    | .key scanCode => some scanCode
    | .notReady => none

def chosen (keys : List Nat) : Decision := keys.foldl Decision.press .start

/-- What the loop's variables say. -/
def Menu.decision (s : Menu) : Decision where
  entry := if s.menuEntry = 1 then .boot else .reboot
  booted := if s.loop = 0 then some (s.legacyBoot == 1) else none
  resets := s.resets

/-- At every point of the run the loop is where the pressed keys have led. -/
def Follows (scanCode : Nat) (ps : List Poll) : Prop :=
  ∀ qs, qs <+: ps → (menuLoop scanCode qs).decision = chosen (pressed qs)

/-- The code in `Key` after some polls. -/
def lastKey (scanCode : Nat) (ps : List Poll) : Nat := (pressed ps).getLastD scanCode

/-- At every poll without a key, pressing the last key once more would do nothing. -/
def Quiet (scanCode : Nat) (ps : List Poll) : Prop :=
  ∀ qs, qs ++ [.notReady] <+: ps →
    (chosen (pressed qs)).press (lastKey scanCode qs) = chosen (pressed qs)

/-! ## The loop's variables -/

structure Keeps (scanCode : Nat) (ps : List Poll) (s : Menu) : Prop where
  entry : s.menuEntry = 0 ∨ s.menuEntry = 1
  legacy : s.loop ≠ 0 → s.legacyBoot = 0
  key : s.loop ≠ 0 → s.scanCode = lastKey scanCode ps

/-- Acting on a code is pressing its key. -/
theorem act_decision {s : Menu} (entry : s.menuEntry = 0 ∨ s.menuEntry = 1) (running : s.loop ≠ 0)
    (legacy : s.legacyBoot = 0) : s.act.decision = s.decision.press s.scanCode := by
  obtain ⟨scanCode, menuEntry, loop, legacyBoot, resets⟩ := s
  dsimp only at entry running legacy
  subst legacy
  rcases entry with rfl | rfl
  · by_cases up : scanCode = 1
    · subst up
      simp [Menu.act, Menu.decision, Decision.press, running]
    · by_cases right : scanCode = 3
      · subst right
        simp [Menu.act, Menu.decision, Decision.press, running]
      · simp [Menu.act, Menu.decision, Decision.press, running, up, right]
  · by_cases down : scanCode = 2
    · subst down
      simp [Menu.act, Menu.decision, Decision.press, running]
    · by_cases right : scanCode = 3
      · subst right
        simp [Menu.act, Menu.decision, Decision.press, running]
      · by_cases left : scanCode = 4
        · subst left
          simp [Menu.act, Menu.decision, Decision.press, running]
        · simp [Menu.act, Menu.decision, Decision.press, running, down, right, left]

theorem act_entry {s : Menu} (entry : s.menuEntry = 0 ∨ s.menuEntry = 1) :
    s.act.menuEntry = 0 ∨ s.act.menuEntry = 1 := by
  unfold Menu.act
  split
  · exact Or.inl rfl
  · split
    · exact Or.inr rfl
    · split
      · split
        · exact entry
        · split
          · exact entry
          · exact entry
      · split
        · exact entry
        · exact entry

/-- While the loop runs on, only the entry and the count of resets change. -/
theorem act_running (s : Menu) :
    s.act.loop = 0 ∨ s.act.legacyBoot = s.legacyBoot ∧ s.act.scanCode = s.scanCode := by
  unfold Menu.act
  split
  · exact Or.inr ⟨rfl, rfl⟩
  · split
    · exact Or.inr ⟨rfl, rfl⟩
    · split
      · split
        · exact Or.inl rfl
        · split <;> exact Or.inr ⟨rfl, rfl⟩
      · split
        · exact Or.inl rfl
        · exact Or.inr ⟨rfl, rfl⟩

theorem lastKey_key (scanCode : Nat) (ps : List Poll) (c : Nat) :
    lastKey scanCode (ps ++ [.key c]) = c := by
  simp [lastKey, pressed, List.filterMap_append]

theorem pressed_notReady (ps : List Poll) : pressed (ps ++ [.notReady]) = pressed ps := by
  simp [pressed, List.filterMap_append]

theorem chosen_key (ps : List Poll) (c : Nat) :
    chosen (pressed (ps ++ [.key c])) = (chosen (pressed ps)).press c := by
  simp [chosen, pressed, List.filterMap_append]

theorem store_lastKey (scanCode : Nat) (ps : List Poll) (p : Poll) :
    p.store (lastKey scanCode ps) = lastKey scanCode (ps ++ [p]) := by
  cases p with
  | key c => rw [lastKey_key, Poll.store]
  | notReady => rw [lastKey, lastKey, pressed_notReady, Poll.store]

theorem menuLoop_append (scanCode : Nat) (ps : List Poll) (p : Poll) :
    menuLoop scanCode (ps ++ [p]) = (menuLoop scanCode ps).poll p := by
  rw [menuLoop, List.foldl_append, List.foldl_cons, List.foldl_nil, ← menuLoop]

/-- **The loop's variables keep their meaning in every run.** -/
theorem menuLoop_keeps (scanCode : Nat) (ps : List Poll) :
    Keeps scanCode ps (menuLoop scanCode ps) := by
  induction ps using List.reverseRecOn with
  | nil => exact ⟨Or.inr rfl, fun _ => rfl, fun _ => rfl⟩
  | append_singleton ps p ih =>
    rw [menuLoop_append, Menu.poll]
    split
    · next stopped =>
      exact ⟨ih.entry, fun running => absurd stopped running, fun running => absurd stopped running⟩
    · next before =>
      have acted := act_running
        { menuLoop scanCode ps with scanCode := p.store (menuLoop scanCode ps).scanCode }
      refine ⟨act_entry ih.entry, fun running => ?_, fun running => ?_⟩
      · rw [(acted.resolve_left running).1]
        exact ih.legacy before
      · rw [(acted.resolve_left running).2, ih.key before, store_lastKey]

/-- One poll presses the key that is in `Key` after it. -/
theorem poll_decision (scanCode : Nat) (ps : List Poll) (p : Poll) :
    (menuLoop scanCode (ps ++ [p])).decision =
      (menuLoop scanCode ps).decision.press (lastKey scanCode (ps ++ [p])) := by
  have keeps := menuLoop_keeps scanCode ps
  rw [menuLoop_append, Menu.poll]
  split
  · next stopped => simp [Menu.decision, stopped, Decision.press]
  · next running =>
    have acted := act_decision
      (s := { menuLoop scanCode ps with scanCode := p.store (menuLoop scanCode ps).scanCode })
      keeps.entry running (keeps.legacy running)
    rw [acted, keeps.key running, store_lastKey]
    rfl

/-! ## Runs -/

theorem follows_append (scanCode : Nat) (ps : List Poll) (p : Poll) :
    Follows scanCode (ps ++ [p]) ↔ Follows scanCode ps ∧
      (menuLoop scanCode (ps ++ [p])).decision = chosen (pressed (ps ++ [p])) := by
  simp only [Follows, List.prefix_concat_iff]
  constructor
  · intro all
    exact ⟨fun qs h => all qs (Or.inr h), all _ (Or.inl rfl)⟩
  · rintro ⟨before, last⟩ qs (rfl | h)
    · exact last
    · exact before qs h

theorem quiet_append (scanCode : Nat) (ps : List Poll) (p : Poll) :
    Quiet scanCode (ps ++ [p]) ↔ Quiet scanCode ps ∧ (p = .notReady →
      (chosen (pressed ps)).press (lastKey scanCode ps) = chosen (pressed ps)) := by
  simp only [Quiet, List.prefix_concat_iff]
  constructor
  · intro all
    exact ⟨fun qs h => all qs (Or.inr h), fun none => all ps (Or.inl (by rw [none]))⟩
  · rintro ⟨before, last⟩ qs (same | h)
    · obtain ⟨rfl, none⟩ := List.append_inj' same rfl
      exact last (List.cons.inj none).1.symm
    · exact before qs h

theorem follows_quiet (scanCode : Nat) (ps : List Poll) :
    Follows scanCode ps ↔ Quiet scanCode ps := by
  induction ps using List.reverseRecOn with
  | nil =>
    constructor
    · intro _ qs h
      simp at h
    · intro _ qs h
      rw [List.prefix_nil.mp h]
      rfl
  | append_singleton ps p ih =>
    rw [follows_append, quiet_append, ih]
    apply and_congr_right
    intro quiet
    have now : (menuLoop scanCode ps).decision = chosen (pressed ps) :=
      ih.mpr quiet ps (List.prefix_refl ps)
    rw [poll_decision, now]
    cases p with
    | key c => simp [chosen_key, lastKey_key]
    | notReady => simp [pressed_notReady, lastKey]

/-- **The loop does what the keys ask for exactly when the polls without a key
find nothing to act upon.** Of two such runs with the same keys, wherever their
empty polls fall, both boot the same. -/
theorem boot_decision (scanCode : Nat) (ps : List Poll) :
    (Follows scanCode ps ↔ Quiet scanCode ps) ∧
    ∀ scanCode' ps', pressed ps' = pressed ps → Quiet scanCode ps → Quiet scanCode' ps' →
      (menuLoop scanCode' ps').decision = (menuLoop scanCode ps).decision := by
  refine ⟨follows_quiet scanCode ps, fun scanCode' ps' keys quiet quiet' => ?_⟩
  have here := (follows_quiet scanCode ps).mpr quiet ps (List.prefix_refl ps)
  have there := (follows_quiet scanCode' ps').mpr quiet' ps' (List.prefix_refl ps')
  rw [here, there, keys]

/-- With the code of Right left on the stack, the first empty poll boots. -/
theorem stale_key_boots : ¬ Follows 3 [.notReady] := by
  intro follows
  have now := follows [.notReady] (List.prefix_refl _)
  revert now
  decide

end KessOS.Bootloader
