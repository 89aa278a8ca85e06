import Mathlib.Data.List.Induction
import Breadboard.Proofs.Assembly.Workbench

/-!
# Passes in any order

The two passes can be run on one workbench as often as one likes and in any order, also
after a pass that has failed. A pass depends on the passes before it in one way only: a
second pass finds the labels if any first pass was run before it (`after_symbols`), and none
otherwise. Everything else that a pass leaves is cleared by the next pass of its kind, and
the other kind does not look at it.

So the image at the end depends on three things about the passes: whether there was a first
one, whether there was a second one, and whether the last second one came behind a first.
-/

namespace Breadboard

/-- The two kinds of passes. -/
inductive Pass where
  | first
  | second
deriving DecidableEq, Repr

/-- The last second pass comes behind a first pass. -/
def ListsPlaced (passes : List Pass) : Prop :=
  ∃ front back, passes = front ++ .second :: back ∧ .second ∉ back ∧ .first ∈ front

namespace Draft

def perform (draft : Draft) : Pass → Option CompileError × Draft
  | .first => draft.placeLabels
  | .second => draft.emitListing

/-- The draft after some passes, whether they fail or not. -/
def after (draft : Draft) (passes : List Pass) : Draft :=
  passes.foldl (fun draft pass => (draft.perform pass).2) draft

/-- What a second pass behind the given passes starts from. -/
def prepared (draft : Draft) (passes : List Pass) : Draft :=
  if .first ∈ passes then draft.placeLabels.2 else draft

section

variable (draft : Draft) (passes : List Pass)

theorem after_concat (pass : Pass) :
    draft.after (passes ++ [pass]) = ((draft.after passes).perform pass).2 := by
  rw [after, List.foldl_append]
  rfl

theorem after_append (others : List Pass) :
    draft.after (passes ++ others) = (draft.after passes).after others :=
  List.foldl_append

/-- No pass changes what is being assembled. -/
theorem after_source :
    (draft.after passes).options = draft.options ∧ (draft.after passes).lines = draft.lines := by
  induction passes using List.reverseRecOn with
  | nil => exact ⟨rfl, rfl⟩
  | append_singleton passes pass ih =>
    rw [after_concat]
    cases pass <;> exact ih

/-- The first pass does not look at what earlier passes have left. -/
theorem placeLabels_after :
    (draft.after passes).placeLabels =
      (draft.placeLabels.1,
        { draft.after passes with symbols := draft.placeLabels.2.symbols }) := by
  obtain ⟨options, lines⟩ := draft.after_source passes
  simp only [placeLabels, options, lines]

/-- A first pass leaves the same labels whenever it is run, and a second pass keeps them. -/
theorem after_symbols :
    (draft.after passes).symbols = (draft.prepared passes).symbols := by
  induction passes using List.reverseRecOn with
  | nil => rfl
  | append_singleton passes pass ih =>
    rw [after_concat]
    cases pass with
    | first =>
      rw [perform, placeLabels_after, prepared,
        if_pos (List.mem_append_right _ (List.mem_singleton_self _))]
    | second =>
      have same : draft.prepared (passes ++ [.second]) = draft.prepared passes := by
        simp only [prepared, List.mem_append, List.mem_singleton, reduceCtorEq, or_false]
      rw [same, ← ih]
      rfl

/-- Of what earlier passes have left, the second pass looks at the labels only. -/
theorem emitListing_after :
    (draft.after passes).emitListing =
      ((draft.prepared passes).emitListing.1,
        { draft.after passes with
          listing := (draft.prepared passes).emitListing.2.listing }) := by
  obtain ⟨options, lines⟩ := draft.after_source passes
  have symbols := draft.after_symbols passes
  have source : (draft.prepared passes).options = draft.options ∧
      (draft.prepared passes).lines = draft.lines := by
    unfold prepared
    split <;> exact ⟨rfl, rfl⟩
  simp only [emitListing, options, lines, symbols, source]

theorem after_listing_of_not_mem (noSecond : .second ∉ passes) :
    (draft.after passes).listing = draft.listing := by
  induction passes using List.reverseRecOn with
  | nil => rfl
  | append_singleton passes pass ih =>
    rw [List.mem_append, not_or] at noSecond
    obtain ⟨before, last⟩ := noSecond
    rw [after_concat]
    cases pass with
    | first => exact ih before
    | second => exact absurd (List.mem_singleton_self _) last

/-- The listing is that of the last second pass. -/
theorem after_listing_of_last {front back : List Pass} (noSecond : .second ∉ back) :
    (draft.after (front ++ .second :: back)).listing =
      (draft.prepared front).emitListing.2.listing := by
  have split : front ++ .second :: back = (front ++ [.second]) ++ back := by
    rw [List.append_assoc, List.singleton_append]
  rw [split, after_append, after_listing_of_not_mem _ _ noSecond, after_concat, perform,
    emitListing_after]

end

end Draft

theorem exists_last_split {passes : List Pass} (present : .second ∈ passes) :
    ∃ front back, passes = front ++ .second :: back ∧ .second ∉ back := by
  obtain ⟨back, front, split, noSecond⟩ :=
    List.eq_append_cons_of_mem (List.mem_reverse.mpr present)
  refine ⟨front.reverse, back.reverse, ?_, fun later => noSecond (List.mem_reverse.mp later)⟩
  rw [← passes.reverse_reverse, split, List.reverse_append, List.reverse_cons, List.append_assoc,
    List.singleton_append]

/-- There is only one last second pass. -/
theorem listsPlaced_iff_of_last {front back : List Pass} (noSecond : .second ∉ back) :
    ListsPlaced (front ++ .second :: back) ↔ .first ∈ front := by
  constructor
  · rintro ⟨otherFront, otherBack, same, otherNoSecond, placed⟩
    rcases List.append_eq_append_iff.mp same with ⟨middle, rfl, rest⟩ | ⟨middle, rfl, rest⟩
    · cases middle with
      | nil => rwa [List.append_nil] at placed
      | cons pass middle =>
        obtain ⟨-, rfl⟩ := List.cons.inj rest
        exact absurd (List.mem_append_right _ List.mem_cons_self) noSecond
    · exact List.mem_append_left _ placed
  · intro placed
    exact ⟨front, back, rfl, noSecond, placed⟩

/-- **The image depends on three things**: whether any first pass was run, whether any second
pass was run, and whether the last second pass came behind a first pass. -/
theorem Draft.image_after_eq (draft : Draft) {passes others : List Pass}
    (sameFirst : .first ∈ passes ↔ .first ∈ others)
    (sameSecond : .second ∈ passes ↔ .second ∈ others)
    (samePlaced : ListsPlaced passes ↔ ListsPlaced others) :
    (draft.after passes).image = (draft.after others).image := by
  have options : (draft.after passes).options = (draft.after others).options := by
    rw [(draft.after_source passes).1, (draft.after_source others).1]
  have symbols : (draft.after passes).symbols = (draft.after others).symbols := by
    rw [after_symbols, after_symbols]
    simp only [prepared, sameFirst]
  have listing : (draft.after passes).listing = (draft.after others).listing := by
    by_cases present : .second ∈ passes
    · obtain ⟨front, back, rfl, noSecond⟩ := exists_last_split present
      obtain ⟨otherFront, otherBack, rfl, otherNoSecond⟩ :=
        exists_last_split (sameSecond.mp present)
      rw [listsPlaced_iff_of_last noSecond, listsPlaced_iff_of_last otherNoSecond] at samePlaced
      rw [after_listing_of_last _ noSecond, after_listing_of_last _ otherNoSecond]
      simp only [prepared, samePlaced]
    · rw [after_listing_of_not_mem _ _ present,
        after_listing_of_not_mem _ _ (mt sameSecond.mpr present)]
  simp only [image, options, symbols, listing]

namespace Workbench

def perform (bench : Workbench) : Pass → Option CompileError × Workbench
  | .first => bench.firstPass
  | .second => bench.secondPass

/-- The bench after some passes, whether they fail or not. -/
def after (bench : Workbench) (passes : List Pass) : Workbench :=
  passes.foldl (fun bench pass => (bench.perform pass).2) bench

theorem toDraft_perform (bench : Workbench) (pass : Pass) :
    (bench.perform pass).2.toDraft = (bench.toDraft.perform pass).2 := by
  cases pass with
  | first =>
    obtain ⟨address, passed⟩ := bench.firstPass_eq
    simp only [perform, passed, Draft.perform]
  | second =>
    obtain ⟨address, passed⟩ := bench.secondPass_eq
    simp only [perform, passed, Draft.perform]

theorem Tidy.perform {bench : Workbench} (tidy : bench.Tidy) (pass : Pass) :
    (bench.perform pass).2.Tidy := by
  cases pass with
  | first => exact tidy.firstPass
  | second => exact Tidy.secondPass bench

/-- **The workbench keeps up with the draft**, through passes of both kinds in any order. -/
theorem toDraft_after (bench : Workbench) (passes : List Pass) :
    (bench.after passes).toDraft = bench.toDraft.after passes := by
  induction passes generalizing bench with
  | nil => rfl
  | cons pass passes ih =>
    have step := ih (bench.perform pass).2
    rw [toDraft_perform] at step
    exact step

theorem Tidy.after {bench : Workbench} (tidy : bench.Tidy) (passes : List Pass) :
    (bench.after passes).Tidy := by
  induction passes generalizing bench with
  | nil => exact tidy
  | cons pass passes ih => exact ih (tidy.perform pass)

section

variable (bench : Workbench)

/-- The outcome of a first pass does not depend on the passes before it. -/
theorem firstPass_after (passes : List Pass) :
    (bench.after passes).firstPass.1 = (placeFrom bench.options.mode 0 {} bench.lines).1 := by
  obtain ⟨address, passed⟩ := (bench.after passes).firstPass_eq
  rw [passed, bench.toDraft_after, Draft.placeLabels_after]
  rfl

/-- As soon as there was a first pass, the labels are those that it finds. -/
theorem symbols_after {passes : List Pass} (placed : .first ∈ passes) :
    (bench.after passes).symbols = (placeFrom bench.options.mode 0 {} bench.lines).2 := by
  rw [bench.toDraft_after, Draft.after_symbols, Draft.prepared, if_pos placed]
  rfl

/-- A second pass finds what the lines give with the labels that the passes before it have left. -/
theorem secondPass_after (passes : List Pass) :
    let labels := (bench.after passes).symbols
    let found := emitFrom bench.options labels 0 bench.lines
    let passed := (bench.after passes).secondPass
    passed.1 = found.1 ∧ passed.2.listing = found.2 ∧ passed.2.symbols = labels := by
  intro labels found passed
  obtain ⟨options, lines⟩ := bench.toDraft.after_source passes
  rw [← bench.toDraft_after] at options lines
  have same :
      found = emitFrom (bench.after passes).options labels 0 (bench.after passes).lines := by
    rw [options, lines]
  obtain ⟨address, run⟩ : ∃ address, passed = _ := (bench.after passes).secondPass_eq
  rw [run, same]
  exact ⟨rfl, rfl, rfl⟩

/-- What is listed after some passes is what the last second pass has listed. -/
theorem listing_after_of_last (front : List Pass) {back : List Pass} (noSecond : .second ∉ back) :
    (bench.after (front ++ .second :: back)).listing =
      (bench.after front).secondPass.2.listing := by
  obtain ⟨address, run⟩ := (bench.after front).secondPass_eq
  rw [run, bench.toDraft_after, Draft.after_listing_of_last _ noSecond]
  change _ = (bench.after front).emitListing.2.listing
  rw [bench.toDraft_after, Draft.emitListing_after]

end

end Workbench

/-- **Passes can be repeated, and they forget what was run before.** A source text is read onto a
workbench, and passes are run on it in any number and order, whether they fail or not. The next
first pass then has the result and leaves the labels that it would on the fresh draft, and
it keeps output and listing. The next second pass has the result and leaves the listing
and the output that it would on the fresh draft with its labels placed, if any first pass was
run before, and on the fresh draft itself otherwise; it keeps the labels. All the while bench
and draft agree on what they hold, on the next results and on the image. That image is
the one of any other passes that agree on whether there was a first pass, whether there was a
second pass, and whether the last second one came behind a first. -/
theorem passes_forget_history (options : AssemblyOptions) (source : String) (draft : Draft)
    (read : Draft.ofSource options source = .ok draft) (passes : List Pass) :
    let fresh : Workbench := { toDraft := draft }
    let bench := fresh.after passes
    let start := if .first ∈ passes then draft.placeLabels.2 else draft
    (bench.firstPass.1 = draft.placeLabels.1 ∧
      bench.firstPass.2.symbols = draft.placeLabels.2.symbols ∧
      bench.firstPass.2.output = bench.output ∧ bench.firstPass.2.listing = bench.listing) ∧
    (bench.secondPass.1 = start.emitListing.1 ∧
      bench.secondPass.2.listing = start.emitListing.2.listing ∧
      bench.secondPass.2.output = listingBytes start.emitListing.2.listing ∧
      bench.secondPass.2.symbols = bench.symbols) ∧
    (bench.toDraft = draft.after passes ∧
      bench.firstPass.1 = (draft.after passes).placeLabels.1 ∧
      bench.secondPass.1 = (draft.after passes).emitListing.1 ∧
      bench.image = (draft.after passes).image) ∧
    ∀ others, (.first ∈ passes ↔ .first ∈ others) → (.second ∈ passes ↔ .second ∈ others) →
      (ListsPlaced passes ↔ ListsPlaced others) → bench.image = (fresh.after others).image := by
  intro fresh bench start
  have unlisted : draft.listing = [] := by
    unfold Draft.ofSource at read
    split at read
    next =>
      cases read
      rfl
    next => cases read
  have tidy : fresh.Tidy := by
    refine ⟨?_, Nat.zero_le romSize⟩
    change [] = listingBytes draft.listing
    rw [unlisted]
    rfl
  have kept (history : List Pass) : (fresh.after history).toDraft = draft.after history :=
    fresh.toDraft_after history
  have imaged (history : List Pass) :
      (fresh.after history).image = (draft.after history).image := by
    rw [(tidy.after history).image_eq, kept]
  have placed : bench.placeLabels = (draft.after passes).placeLabels :=
    congrArg Draft.placeLabels (kept passes)
  have listed : bench.emitListing = (draft.after passes).emitListing :=
    congrArg Draft.emitListing (kept passes)
  obtain ⟨address, firstPassed⟩ := bench.firstPass_eq
  obtain ⟨otherAddress, secondPassed⟩ := bench.secondPass_eq
  refine ⟨?_, ?_, ⟨kept passes, ?_, ?_, imaged passes⟩, ?_⟩
  · rw [firstPassed, placed, draft.placeLabels_after passes]
    exact ⟨rfl, rfl, rfl, (congrArg Draft.listing (kept passes)).symm⟩
  · rw [secondPassed, listed, draft.emitListing_after passes]
    exact ⟨rfl, rfl, rfl, (congrArg Draft.symbols (kept passes)).symm⟩
  · rw [firstPassed, placed]
  · rw [secondPassed, listed]
  · intro others sameFirst sameSecond samePlaced
    rw [imaged passes, imaged others]
    exact draft.image_after_eq sameFirst sameSecond samePlaced

theorem passes_forget_history_of_failing_passes :
    let lines : List Line :=
      [⟨⟨1, 0, "on:".toList⟩, .label ⟨"ON", ⟨0, 2⟩⟩⟩,
        ⟨⟨2, 4, "jmp on".toList⟩, .instruction ⟨"JMP", ⟨4, 3⟩⟩ [⟨"ON", ⟨8, 2⟩⟩]⟩,
        ⟨⟨3, 11, "jmp off".toList⟩, .instruction ⟨"JMP", ⟨11, 3⟩⟩ [⟨"OFF", ⟨15, 3⟩⟩]⟩,
        ⟨⟨4, 19, "on:".toList⟩, .label ⟨"ON", ⟨19, 2⟩⟩⟩]
    let draft : Draft := { options := {}, lines := lines }
    let fresh : Workbench := { toDraft := draft }
    let bench := fresh.after [.second, .first, .second, .first]
    Draft.ofSource {} "on:\njmp on\njmp off\non:" = .ok draft ∧
      bench.firstPass.1 = some ⟨4, "on:", ⟨19, 2⟩, .duplicateLabel "ON" 0⟩ ∧
      fresh.secondPass.1 = some ⟨2, "jmp on", ⟨8, 2⟩, .undefinedLabel "ON"⟩ ∧
      bench.secondPass.1 = some ⟨3, "jmp off", ⟨15, 3⟩, .undefinedLabel "OFF"⟩ ∧
      bench.secondPass.2.output = [0x05, 0x00, 0x00] ∧
      bench.image = (fresh.after [.first, .second]).image := by
  intro lines draft
  have read : Draft.ofSource {} "on:\njmp on\njmp off\non:" = .ok draft := by decide +kernel
  obtain ⟨⟨firstFails, -⟩, ⟨secondFails, -, sent, -⟩, -, image⟩ :=
    passes_forget_history {} _ draft read [.second, .first, .second, .first]
  obtain ⟨-, ⟨unplacedFails, -⟩, -⟩ := passes_forget_history {} _ draft read []
  have sameImage := image [.first, .second] (by decide) (by decide)
    (iff_of_true ⟨[.second, .first], [.first], rfl, by decide, by decide⟩
      ⟨[.first], [], rfl, by decide, by decide⟩)
  exact ⟨read, firstFails.trans (by decide +kernel), unplacedFails.trans (by decide +kernel),
    secondFails.trans (by decide +kernel), sent.trans (by decide +kernel), sameImage⟩

end Breadboard
