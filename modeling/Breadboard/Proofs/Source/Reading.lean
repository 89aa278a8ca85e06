import Breadboard.Proofs.Source.Form
import Mathlib.Data.List.Forall2

/-!
# The first fault

A pass goes through the lines of a text and stops at the first one that is at fault. What a
pass has to satisfy for that is stated line by line, and holds of the whole text by induction
(`reports_of_steps`). Reading a text is such a pass (`readSource_reports`), and the lines that
it gives say what is written (`lines_of_readSource`).
-/

namespace Breadboard

/-- A fault that no line above has. -/
def FirstFault (faults : Nat → Fault → Prop) (index : Nat) (fault : Fault) : Prop :=
  faults index fault ∧ ∀ earlier < index, ∀ other, ¬faults earlier other

/-- What a pass reports: no failure if no line is at fault, and otherwise the only fault of the
first faulty line. -/
def Reports (faults : Nat → Fault → Prop) : Option CompileError → Prop
  | none => ∀ index fault, ¬faults index fault
  | some failure =>
    ∃ index, failure.line = index + 1 ∧
      (∀ fault, faults index fault ↔ fault = failure.fault) ∧
      ∀ earlier < index, ∀ other, ¬faults earlier other

section

variable {faults : Nat → Fault → Prop}

/-- What is reported is the first fault. -/
theorem Reports.firstFault_iff {failure : CompileError} (reports : Reports faults (some failure))
    (index : Nat) (fault : Fault) :
    FirstFault faults index fault ↔ failure.line = index + 1 ∧ failure.fault = fault := by
  obtain ⟨place, line, only, noneAbove⟩ := reports
  constructor
  · rintro ⟨found, noneEarlier⟩
    rcases Nat.lt_trichotomy index place with above | rfl | below
    · exact absurd found (noneAbove index above fault)
    · exact ⟨line, ((only fault).mp found).symm⟩
    · exact absurd ((only _).mpr rfl) (noneEarlier place below failure.fault)
  · rintro ⟨same, rfl⟩
    have sameIndex : index = place := by omega
    rw [sameIndex]
    exact ⟨(only _).mpr rfl, noneAbove⟩

variable {α : Type} {items : List α} (pass : List α → Option CompileError)

/-- **A pass reports the first fault.** It has to stop for good where it stops, and behind
lines that it got through it has to stop exactly if the next line is at fault. -/
theorem reports_of_steps (start : pass [] = none)
    (stops : ∀ front back failure, pass front = some failure →
      pass (front ++ back) = some failure)
    (inside : ∀ index fault, faults index fault → index < items.length)
    (step : ∀ front item back, items = front ++ item :: back → pass front = none →
      match pass (front ++ [item]) with
      | none => ∀ fault, ¬faults front.length fault
      | some failure => failure.line = front.length + 1 ∧
        ∀ fault, faults front.length fault ↔ fault = failure.fault) :
    Reports faults (pass items) := by
  suffices behind : ∀ back front, items = front ++ back → pass front = none →
      (∀ earlier < front.length, ∀ other, ¬faults earlier other) →
        Reports faults (pass (front ++ back)) from
    behind items [] rfl start (fun _ absent => absurd absent (Nat.not_lt_zero _))
  -- The induction is on the lines that are left, with those in front already passed.
  intro back
  induction back with
  | nil =>
    intro front split through noneAbove
    rw [List.append_nil] at split ⊢
    rw [through]
    intro index fault found
    have low := inside index fault found
    rw [split] at low
    exact noneAbove index low fault found
  | cons item back ih =>
    intro front split through noneAbove
    have here := step front item back split through
    have joined : front ++ item :: back = front ++ [item] ++ back := by
      rw [List.append_assoc, List.singleton_append]
    rw [joined]
    cases next : pass (front ++ [item]) with
    | some failure =>
      rw [next] at here
      rw [stops _ back failure next]
      exact ⟨front.length, here.1, here.2, noneAbove⟩
    | none =>
      rw [next] at here
      apply ih (front ++ [item]) (split.trans joined) next
      intro earlier low other
      rw [List.length_append, List.length_singleton] at low
      rcases Nat.lt_succ_iff_lt_or_eq.mp low with above | rfl
      · exact noneAbove earlier above other
      · exact here other

end

/-- The failure of something that may fail. -/
def failure? {ε α : Type} : Except ε α → Option ε
  | .ok _ => none
  | .error failure => some failure

/-- The lines of a text as they are written. -/
def writtenLines (source : String) : List RawLine := placeLines 1 0 (splitLines source.toList)

theorem readSource_eq_mapM (source : String) :
    readSource source = (writtenLines source).mapM Line.ofRaw := rfl

/-- Lines are numbered in order. -/
theorem number_of_placeLines {number start index : Nat} {lines : List (List Char)} {raw : RawLine}
    (here : (placeLines number start lines)[index]? = some raw) : raw.number = number + index := by
  induction lines generalizing number start index with
  | nil => cases here
  | cons line lines ih =>
    cases index with
    | zero =>
      cases here
      rfl
    | succ index =>
      rw [ih here, Nat.add_assoc, Nat.add_comm 1 index]

/-- **Reading a text reports the first line that is not well formed.** -/
theorem readSource_reports (source : String) :
    Reports
      (fun index fault => ∃ raw, (writtenLines source)[index]? = some raw ∧
        FormFault raw.characters fault)
      (failure? (readSource source)) := by
  rw [readSource_eq_mapM]
  apply reports_of_steps (fun raws => failure? (raws.mapM Line.ofRaw)) rfl
  · intro front back failure stopped
    cases read : front.mapM Line.ofRaw with
    | ok lines =>
      rw [read] at stopped
      cases stopped
    | error found =>
      rw [read] at stopped
      cases stopped
      rw [List.mapM_append, read]
      rfl
  · rintro index fault ⟨raw, here, _⟩
    exact (List.getElem?_eq_some_iff.mp here).1
  · intro front raw back split through
    have here : (writtenLines source)[front.length]? = some raw := by
      rw [split, List.getElem?_append_right (Nat.le_refl _), Nat.sub_self]
      rfl
    simp only [here, Option.some.injEq, exists_eq_left']
    cases read : front.mapM Line.ofRaw with
    | error found =>
      rw [read] at through
      cases through
    | ok lines =>
      rw [List.mapM_append, read, List.mapM_cons, List.mapM_nil]
      cases next : Line.ofRaw raw with
      | ok line => exact (Line.ofRaw_eq_ok next).2.2
      | error failure =>
        obtain ⟨number, form⟩ := Line.ofRaw_eq_error next
        refine ⟨?_, fun fault => ⟨fun other => ?_, fun same => ?_⟩⟩
        · rw [number, number_of_placeLines here, Nat.add_comm]
        · rw [form.blames, other.blames]
        · rw [same]
          exact form

theorem forall₂_of_mapM_eq_ok {ε α β : Type} {f : α → Except ε β} {list : List α}
    {results : List β} (run : list.mapM f = .ok results) :
    List.Forall₂ (fun item result => f item = .ok result) list results := by
  induction list generalizing results with
  | nil =>
    cases run
    exact .nil
  | cons item list ih =>
    rw [List.mapM_cons] at run
    cases first : f item with
    | error failure =>
      rw [first] at run
      cases run
    | ok result =>
      cases others : list.mapM f with
      | error failure =>
        rw [first, others] at run
        cases run
      | ok rest =>
        rw [first, others] at run
        cases run
        exact .cons first (ih others)

/-- What is read is what is written. -/
theorem lines_of_readSource {source : String} {lines : List Line}
    (read : readSource source = .ok lines) :
    List.Forall₂ (fun raw line => line.raw = raw ∧ Says raw.characters line.content)
      (writtenLines source) lines := by
  rw [readSource_eq_mapM] at read
  apply (forall₂_of_mapM_eq_ok read).imp
  intro raw line same
  obtain ⟨kept, said, _⟩ := Line.ofRaw_eq_ok same
  exact ⟨kept, said⟩

theorem said_of_mem_readSource {source : String} {lines : List Line} {line : Line}
    (read : readSource source = .ok lines) (member : line ∈ lines) :
    Says line.raw.characters line.content := by
  have written := lines_of_readSource read
  clear read
  generalize writtenLines source = raws at written
  induction written with
  | nil => cases member
  | cons first _ ih =>
    rcases List.mem_cons.mp member with rfl | later
    · rw [first.1]
      exact first.2
    · exact ih later

/-- Lines that are read are numbered from one on. -/
theorem number_of_readSource {source : String} {lines : List Line}
    (read : readSource source = .ok lines) (index : Nat) (line : Line)
    (here : lines[index]? = some line) : line.raw.number = index + 1 := by
  have written := lines_of_readSource read
  obtain ⟨inside, rfl⟩ := List.getElem?_eq_some_iff.mp here
  have insideWritten : index < (writtenLines source).length := by
    rw [written.length_eq]
    exact inside
  have kept := (written.get insideWritten inside).1
  rw [List.get_eq_getElem, List.get_eq_getElem] at kept
  rw [kept, number_of_placeLines (List.getElem?_eq_getElem insideWritten), Nat.add_comm]

section

variable {α : Type} {shown : α → List Char} {holds : Content → α → Prop} {items : List α}
  (reads : ∀ item ∈ items, ∀ place, ∃ content,
    Content.ofTokens (tokenize place (shown item)) = .ok content ∧ holds content item)

include reads

theorem exists_mapM_ofRaw (noReturn : ∀ item ∈ items, '\r' ∉ shown item) (number start : Nat) :
    ∃ lines, (placeLines number start (items.map shown)).mapM Line.ofRaw = .ok lines ∧
      List.Forall₂ (fun line item => holds line.content item) lines items := by
  induction items generalizing number start with
  | nil => exact ⟨[], rfl, .nil⟩
  | cons item items ih =>
    rw [List.forall_mem_cons] at noReturn reads
    obtain ⟨content, first, kept⟩ := reads.1 start
    obtain ⟨others, rest, keptRest⟩ :=
      ih reads.2 noReturn.2 (number + 1) (start + utf8Length (shown item) + 1)
    have line : Line.ofRaw ⟨number, start, withoutReturn (shown item)⟩ =
        .ok ⟨⟨number, start, shown item⟩, content⟩ := by
      rw [withoutReturn_eq_self noReturn.1, Line.ofRaw, first]
    refine ⟨⟨⟨number, start, shown item⟩, content⟩ :: others, ?_, .cons kept keptRest⟩
    rw [List.map_cons, placeLines, List.mapM_cons, line, rest]
    rfl

/-- **Lines that were written one line feed apart are read one by one.** -/
theorem readSource_intercalate (noFeed : ∀ item ∈ items, '\n' ∉ shown item)
    (noReturn : ∀ item ∈ items, '\r' ∉ shown item) (someItem : items ≠ []) {source : String}
    (written : source.toList = ['\n'].intercalate (items.map shown)) :
    ∃ lines, readSource source = .ok lines ∧
      List.Forall₂ (fun line item => holds line.content item) lines items := by
  obtain ⟨lines, read, kept⟩ := exists_mapM_ofRaw reads noReturn 1 0
  refine ⟨lines, ?_, kept⟩
  have someLine : items.map shown ≠ [] := by
    rw [ne_eq, List.map_eq_nil_iff]
    exact someItem
  rw [readSource, written, splitLines_intercalate (List.forall_mem_map.mpr noFeed) someLine, read]

end

end Breadboard
