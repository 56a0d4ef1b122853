import KessOS.Elf
import KessOS.Font
import KessOS.Handoff
import KessOS.MenuLoop

/-!
# The paths through the bootloader

`efiMain` is the whole of `efi_main` as far as its branches go: the results of
the firmware's calls go in, the framebuffers and fonts it dereferences and the
call of the kernel come out.

* `mem_efiMain`: everything that can happen;
* `safe_iff`: `NULL` from `initGOP` or `loadFont` is used by the menu before
  anything looks at it.
-/

namespace KessOS.Bootloader

/-! ## Results of the firmware's calls -/

/-- `EFI_ERROR`: the status is negative. -/
def efiError (status : Nat) : Bool := status / 9223372036854775808 % 2 == 1

/-- `Open`: its status, and the handle it stores. -/
structure OpenCall where
  status : Nat
  file : Nat

/-- `LocateProtocol`, and the pointer left by `AllocatePool`. -/
structure GopCalls where
  locateProtocol : Nat
  framebuffer : Nat

/-- `Open`, what `Read` left for the header, and the pointer to the font left by
`AllocatePool`. -/
structure FontCalls where
  opened : OpenCall
  header : Psf1Header
  font : Nat

/-- Whether `AllocatePages` gave the pages of a segment and `Read` filled them. -/
structure SegmentCalls where
  allocated : Bool
  read : Bool

/-- The results that a branch or a pointer under test depends on. Left out:
`Read` of the ELF header (`header` is what it left, filled or not), `HandleProtocol`
and `OpenVolume` (their pointers are the firmware's, none is returned) and
`AllocatePool` for the font's header and glyphs (pointers inside of the font). -/
structure Calls where
  kernel : OpenCall
  header : Ehdr
  headersRead : Bool
  segments : List SegmentCalls
  gop : GopCalls
  font : FontCalls
  scanCode : Nat
  polls : List Poll
  fw : Firmware
  mapSize : Nat
  mapKey : Nat
  descriptorSize : Nat

/-- Every call that loads the image did what it was asked to. -/
def Calls.imageLoaded (c : Calls) : Bool :=
  c.headersRead && c.segments.all fun segment => segment.allocated && segment.read

/-! ## The functions -/

inductive Event where
  | useFramebuffer (lfb : Nat)
  | useFont (font : Nat)
  | kernelEntry (lfb font : Nat) (memInfo : Meminfo)

/-- The file, or `NULL`. -/
def loadFile (c : OpenCall) : Nat := if c.status ≠ 0 then 0 else c.file

/-- The framebuffer, or `NULL`. Its fields are stored without a look at the pointer. -/
def initGOP (c : GopCalls) : Nat × List Event :=
  if efiError c.locateProtocol then (0, [])
  else (c.framebuffer, [.useFramebuffer c.framebuffer])

/-- The font, or `NULL`. -/
def loadFont (c : FontCalls) : Nat × List Event :=
  if loadFile c.opened = 0 then (0, [])
  else if fontHeaderBad c.header then (0, [])
  else (c.font, [.useFont c.font])

/-- Both menus clear the screen and write text. -/
def menuEvents (lfb font : Nat) : List Event := [.useFramebuffer lfb, .useFont font]

/-- The loop draws a menu when the entry changes. -/
def loopEvents (lfb font : Nat) : Menu → List Poll → List Event
  | _, [] => []
  | s, p :: ps =>
    (if (s.poll p).menuEntry ≠ s.menuEntry then menuEvents lfb font else []) ++
      loopEvents lfb font (s.poll p) ps

/-- The screen is cleared, the map taken, the kernel entered. -/
def bootEvents (c : Calls) (lfb font : Nat) : List Event :=
  .useFramebuffer lfb ::
    match (handOff c.fw c.mapSize c.mapKey c.descriptorSize font).entered with
    | none => []
    | some memInfo => [.kernelEntry lfb font memInfo]

def efiMain (c : Calls) : List Event :=
  if loadFile c.kernel = 0 then []
  else if headerBad c.header then []
  else
    let (lfb, drawn) := initGOP c.gop
    let (font, loaded) := loadFont c.font
    drawn ++ loaded ++ menuEvents lfb font ++ loopEvents lfb font (.start c.scanCode) c.polls ++
      if (menuLoop c.scanCode c.polls).loop = 0 then bootEvents c lfb font else []

/-! ## What is asked of it -/

/-- No use of `NULL`, and the kernel entered only when everything is there. -/
def Event.Fine (c : Calls) : Event → Prop
  | .useFramebuffer lfb => lfb ≠ 0
  | .useFont font => font ≠ 0
  | .kernelEntry lfb font _ => lfb ≠ 0 ∧ font ≠ 0 ∧ c.imageLoaded = true

def Safe (c : Calls) : Prop := ∀ e ∈ efiMain c, e.Fine c

structure KernelFound (c : Calls) : Prop where
  status : c.kernel.status = 0
  file : c.kernel.file ≠ 0
  header : headerBad c.header = false

structure GraphicsReady (c : GopCalls) : Prop where
  located : efiError c.locateProtocol = false
  allocated : c.framebuffer ≠ 0

structure FontReady (c : FontCalls) : Prop where
  status : c.opened.status = 0
  file : c.opened.file ≠ 0
  header : fontHeaderBad c.header = false
  allocated : c.font ≠ 0

/-! ## The events -/

theorem loadFile_iff (c : OpenCall) : loadFile c ≠ 0 ↔ c.status = 0 ∧ c.file ≠ 0 := by
  unfold loadFile
  by_cases failed : c.status = 0 <;> simp [failed]

theorem initGOP_iff (c : GopCalls) : (initGOP c).1 ≠ 0 ↔ GraphicsReady c := by
  unfold initGOP
  cases located : efiError c.locateProtocol with
  | true =>
    constructor
    · intro found
      exact absurd rfl found
    · intro ready
      rw [ready.located] at located
      cases located
  | false =>
    constructor
    · intro found
      exact ⟨located, found⟩
    · intro ready
      exact ready.allocated

theorem loadFont_iff (c : FontCalls) : (loadFont c).1 ≠ 0 ↔ FontReady c := by
  have opened := loadFile_iff c.opened
  unfold loadFont
  by_cases missing : loadFile c.opened = 0
  · rw [if_pos missing]
    constructor
    · intro found
      exact absurd rfl found
    · intro ready
      exact absurd missing (opened.mpr ⟨ready.status, ready.file⟩)
  · obtain ⟨status, file⟩ := opened.mp missing
    rw [if_neg missing]
    cases header : fontHeaderBad c.header with
    | true =>
      constructor
      · intro found
        exact absurd rfl found
      · intro ready
        rw [ready.header] at header
        cases header
    | false =>
      constructor
      · intro found
        exact ⟨status, file, header, found⟩
      · intro ready
        exact ready.allocated

/-- A menu is never the first to use a pointer. -/
theorem mem_loopEvents {lfb font : Nat} {e : Event} {ps : List Poll} {s : Menu}
    (h : e ∈ loopEvents lfb font s ps) : e ∈ menuEvents lfb font := by
  induction ps generalizing s with
  | nil => cases h
  | cons p ps ih =>
    rcases List.mem_append.mp h with here | later
    · split at here
      · exact here
      · cases here
    · exact ih later

theorem efiMain_missing {c : Calls} (missing : ¬ KernelFound c) : efiMain c = [] := by
  have found := loadFile_iff c.kernel
  unfold efiMain
  split
  · rfl
  · next there =>
    split
    · rfl
    · next good =>
      obtain ⟨status, file⟩ := found.mp there
      exact absurd ⟨status, file, by simpa using good⟩ missing

theorem efiMain_found {c : Calls} (found : KernelFound c) : efiMain c =
    (initGOP c.gop).2 ++ (loadFont c.font).2 ++
      menuEvents (initGOP c.gop).1 (loadFont c.font).1 ++
      loopEvents (initGOP c.gop).1 (loadFont c.font).1 (.start c.scanCode) c.polls ++
      if (menuLoop c.scanCode c.polls).loop = 0 then
        bootEvents c (initGOP c.gop).1 (loadFont c.font).1
      else [] := by
  have there := (loadFile_iff c.kernel).mpr ⟨found.status, found.file⟩
  unfold efiMain
  rw [if_neg there, found.header]
  rfl

/-- The helpers use what they return. -/
theorem mem_initGOP {c : GopCalls} {e : Event} (h : e ∈ (initGOP c).2) :
    e = .useFramebuffer (initGOP c).1 := by
  unfold initGOP at h ⊢
  split at h
  · cases h
  · next found =>
    rw [if_neg found]
    exact List.mem_singleton.mp h

theorem mem_loadFont {c : FontCalls} {e : Event} (h : e ∈ (loadFont c).2) :
    e = .useFont (loadFont c).1 := by
  unfold loadFont at h ⊢
  split at h
  · cases h
  · next found =>
    rw [if_neg found]
    split at h
    · cases h
    · next good =>
      rw [if_neg good]
      exact List.mem_singleton.mp h

theorem mem_bootEvents {c : Calls} {lfb font : Nat} {e : Event} :
    e ∈ bootEvents c lfb font ↔ e = .useFramebuffer lfb ∨ font ≠ 0 ∧
      ∃ memInfo, (handOff c.fw c.mapSize c.mapKey c.descriptorSize font).entered = some memInfo ∧
        e = .kernelEntry lfb font memInfo := by
  unfold bootEvents
  rw [List.mem_cons]
  apply or_congr_right
  by_cases none : font = 0
  · simp [handOff, none]
  · rw [handOff_entered none]
    simp [none]

/-- **Everything that can happen** once the kernel is found. -/
theorem mem_efiMain {c : Calls} (found : KernelFound c) {e : Event} : e ∈ efiMain c ↔
    e = .useFramebuffer (initGOP c.gop).1 ∨ e = .useFont (loadFont c.font).1 ∨
    ((menuLoop c.scanCode c.polls).loop = 0 ∧ (loadFont c.font).1 ≠ 0 ∧ ∃ memInfo,
      (handOff c.fw c.mapSize c.mapKey c.descriptorSize (loadFont c.font).1).entered =
        some memInfo ∧ e = .kernelEntry (initGOP c.gop).1 (loadFont c.font).1 memInfo) := by
  have menu : e ∈ menuEvents (initGOP c.gop).1 (loadFont c.font).1 ↔
      e = .useFramebuffer (initGOP c.gop).1 ∨ e = .useFont (loadFont c.font).1 := by
    simp [menuEvents]
  rw [efiMain_found found]
  simp only [List.mem_append]
  constructor
  · rintro ((((drawn | loaded) | drew) | again) | booted)
    · exact Or.inl (mem_initGOP drawn)
    · exact Or.inr (Or.inl (mem_loadFont loaded))
    · exact (menu.mp drew).imp_right Or.inl
    · exact (menu.mp (mem_loopEvents again)).imp_right Or.inl
    · split at booted
      · next left =>
        rcases mem_bootEvents.mp booted with cleared | entered
        · exact Or.inl cleared
        · exact Or.inr (Or.inr ⟨left, entered⟩)
      · cases booted
  · rintro (lfb | font | ⟨left, entered⟩)
    · exact Or.inl (Or.inl (Or.inr (menu.mpr (Or.inl lfb))))
    · exact Or.inl (Or.inl (Or.inr (menu.mpr (Or.inr font))))
    · apply Or.inr
      rw [if_pos left]
      exact mem_bootEvents.mpr (Or.inr entered)

/-! ## Safe paths -/

/-- The condition: without a kernel nothing happens; with one, the graphics
protocol and the font have to be there, and the image if the menu is left. -/
def Prepared (c : Calls) : Prop :=
  KernelFound c → GraphicsReady c.gop ∧ FontReady c.font ∧
    ((menuLoop c.scanCode c.polls).loop = 0 → c.imageLoaded = true)

theorem Safe.prepared {c : Calls} (safe : Safe c) : Prepared c := by
  intro found
  have lfb := safe _ ((mem_efiMain found).mpr (Or.inl rfl))
  have font := safe _ ((mem_efiMain found).mpr (Or.inr (Or.inl rfl)))
  refine ⟨(initGOP_iff c.gop).mp lfb, (loadFont_iff c.font).mp font, fun left => ?_⟩
  have entered := handOff_entered font c.fw c.mapSize c.mapKey c.descriptorSize
  have booted := safe _ ((mem_efiMain found).mpr (Or.inr (Or.inr ⟨left, font, _,
    congrArg Handoff.entered entered, rfl⟩)))
  exact booted.2.2

/-- **The paths that are safe.** -/
theorem safe_iff (c : Calls) : Safe c ↔ Prepared c := by
  constructor
  · exact Safe.prepared
  · intro prepared e happens
    by_cases found : KernelFound c
    · obtain ⟨graphics, font, image⟩ := prepared found
      have lfb := (initGOP_iff c.gop).mpr graphics
      have font := (loadFont_iff c.font).mpr font
      rcases (mem_efiMain found).mp happens with rfl | rfl | ⟨left, _, memInfo, _, rfl⟩
      · exact lfb
      · exact font
      · exact ⟨lfb, font, image left⟩
    · rw [efiMain_missing found] at happens
      cases happens

/-- A header that the loader accepts. -/
def goodHeader : Ehdr where
  eIdent := fun i => if i = eiClass then elfClass64 else elfMag i
  eType := etExec
  eMachine := emX8664
  eVersion := evCurrent
  ePhoff := 64
  ePhentsize := 56
  ePhnum := 0

/-- All is well but for the graphics protocol, which is not found. -/
def noGraphics : Calls where
  kernel := ⟨0, 0x1000⟩
  header := goodHeader
  headersRead := true
  segments := []
  gop := ⟨9223372036854775822, 0⟩
  font := ⟨⟨0, 0x2000⟩, ⟨0x36, 0x04, 0, 16⟩, 0x3000⟩
  scanCode := 0
  polls := []
  fw := ⟨⟨480, 7, 48⟩, ⟨480, 8, 48⟩, 0x100000, false⟩
  mapSize := 0
  mapKey := 0
  descriptorSize := 0

/-- The menu draws on a `NULL` framebuffer. -/
theorem noGraphics_unsafe : ¬ Safe noGraphics := by
  intro safe
  have found : KernelFound noGraphics := ⟨rfl, by decide, by decide⟩
  have located := (safe.prepared found).1.located
  revert located
  decide

end KessOS.Bootloader
