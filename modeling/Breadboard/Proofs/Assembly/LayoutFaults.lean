import Breadboard.Proofs.Assembly.Faults
import Breadboard.Proofs.Assembly.Placement
import Breadboard.Proofs.Source.Reading

/-!
# Faults of the layout

A line is at fault for the layout of a text if its name was declared above, if its mnemonic is
none, or if it is the one that does not fit into ROM any more. The first pass reports the
first such line (`placeFrom_reports`).
-/

namespace Breadboard

/-- The line is the first one that declares the name. -/
def FirstDeclares (lines : List Line) (name : String) (index : Nat) : Prop :=
  (∃ line, lines[index]? = some line ∧ line.label? = some name) ∧
    ∀ earlier < index, ∀ line, lines[earlier]? = some line → line.label? ≠ some name

/-- What is wrong with the place of a line among the lines above it. -/
inductive LayoutFault (mode : AddressMode) (lines : List Line) (index : Nat) : Fault → Prop where
  /-- The address is that of the first declaration. -/
  | duplicateLabel {line : Line} {name : Word} {first : Nat} (here : lines[index]? = some line)
      (label : line.content = .label name) (above : first < index)
      (declared : FirstDeclares lines (capitalized name.text) first) :
      LayoutFault mode lines index (.duplicateLabel name.text (addressOf mode lines first))
  | unknownMnemonic {line : Line} {head : Word} {operands : List Word}
      (here : lines[index]? = some line) (written : line.content = .instruction head operands)
      (unknown : ∀ mnemonic : Mnemonic, ¬head.Names mnemonic.text) :
      LayoutFault mode lines index (.unknownMnemonic head.text)
  /-- The size is that of the text up to this line. -/
  | programTooLarge {line : Line} (here : lines[index]? = some line)
      (fits : addressOf mode lines index ≤ romSize)
      (exceeds : romSize < addressOf mode lines (index + 1)) :
      LayoutFault mode lines index (.programTooLarge (addressOf mode lines (index + 1)))

/-- A name that is declared once is declared first where it is declared. -/
theorem firstDeclares_of_nodup {lines : List Line} (distinct : (lines.filterMap Line.label?).Nodup)
    {index : Nat} {line : Line} {name : String} (here : lines[index]? = some line)
    (label : line.label? = some name) : FirstDeclares lines name index := by
  refine ⟨⟨line, here, label⟩, ?_⟩
  intro earlier above other there otherLabel
  obtain ⟨_, rfl⟩ := List.getElem?_eq_some_iff.mp here
  obtain ⟨_, rfl⟩ := List.getElem?_eq_some_iff.mp there
  rw [List.Nodup, List.pairwise_filterMap, List.pairwise_iff_getElem] at distinct
  exact distinct earlier index _ _ above name otherLabel name label rfl

namespace FirstDeclares

variable {front : List Line} {name : String} {index other : Nat}

theorem lt_length (declared : FirstDeclares front name index) : index < front.length := by
  obtain ⟨⟨line, here, _⟩, _⟩ := declared
  exact (List.getElem?_eq_some_iff.mp here).1

theorem unique (declared : FirstDeclares front name index)
    (otherDeclared : FirstDeclares front name other) : index = other := by
  obtain ⟨⟨line, here, label⟩, first⟩ := declared
  obtain ⟨⟨otherLine, there, otherLabel⟩, otherFirst⟩ := otherDeclared
  rcases Nat.lt_trichotomy index other with above | same | below
  · exact absurd label (otherFirst index above line here)
  · exact same
  · exact absurd otherLabel (first other below otherLine there)

/-- The lines below do not matter. -/
theorem append (declared : FirstDeclares front name index) (back : List Line) :
    FirstDeclares (front ++ back) name index := by
  have inside := declared.lt_length
  obtain ⟨⟨line, here, label⟩, first⟩ := declared
  refine ⟨⟨line, by rw [List.getElem?_append_left inside, here], label⟩, ?_⟩
  intro earlier above other there
  rw [List.getElem?_append_left (Nat.lt_trans above inside)] at there
  exact first earlier above other there

theorem of_append {back : List Line} (declared : FirstDeclares (front ++ back) name index)
    (inside : index < front.length) : FirstDeclares front name index := by
  obtain ⟨⟨line, here, label⟩, first⟩ := declared
  rw [List.getElem?_append_left inside] at here
  refine ⟨⟨line, here, label⟩, ?_⟩
  intro earlier above other there
  apply first earlier above other
  rw [List.getElem?_append_left (Nat.lt_trans above inside), there]

end FirstDeclares

theorem addressOf_append {mode : AddressMode} {front : List Line} {index : Nat}
    (inside : index ≤ front.length) (back : List Line) :
    addressOf mode (front ++ back) index = addressOf mode front index := by
  rw [addressOf, List.take_append_of_le_length inside, addressOf]

section

variable {mode : AddressMode} {front back : List Line} {line : Line}

/-- The address behind some lines. -/
theorem addressOf_length_append (mode : AddressMode) (front back : List Line) :
    addressOf mode (front ++ back) front.length = totalSize mode front := by
  rw [addressOf_append (Nat.le_refl _), addressOf_length]

theorem getElem?_length_append : (front ++ line :: back)[front.length]? = some line := by
  rw [List.getElem?_append_right (Nat.le_refl _), Nat.sub_self]
  rfl

theorem addressOf_length_succ :
    addressOf mode (front ++ line :: back) (front.length + 1) =
      totalSize mode front + line.size mode := by
  rw [addressOf_succ getElem?_length_append, addressOf_length_append]

/-- Only an instruction line can be too large. -/
theorem not_exceeds (fits : totalSize mode front ≤ romSize) (nothing : line.size mode = 0) :
    ¬romSize < addressOf mode (front ++ line :: back) (front.length + 1) := by
  rw [addressOf_length_succ, nothing, Nat.add_zero]
  exact Nat.not_lt.mpr fits

variable {raw : RawLine}

theorem not_layoutFault_blank (fits : totalSize mode front ≤ romSize) (fault : Fault) :
    ¬LayoutFault mode (front ++ ⟨raw, .blank⟩ :: back) front.length fault := by
  intro layout
  cases layout with
  | duplicateLabel there label =>
    cases getElem?_length_append.symm.trans there
    cases label
  | unknownMnemonic there written =>
    cases getElem?_length_append.symm.trans there
    cases written
  | programTooLarge _ _ exceeds => exact not_exceeds fits rfl exceeds

/-- A label line is at fault exactly if its name was declared above. -/
theorem layoutFault_label_iff (fits : totalSize mode front ≤ romSize) (name : Word)
    (fault : Fault) :
    LayoutFault mode (front ++ ⟨raw, .label name⟩ :: back) front.length fault ↔
      ∃ first, FirstDeclares front (capitalized name.text) first ∧
        fault = .duplicateLabel name.text (addressOf mode front first) := by
  constructor
  · intro layout
    cases layout with
    | @duplicateLabel _ _ first there label above declared =>
      cases getElem?_length_append.symm.trans there
      cases label
      refine ⟨first, declared.of_append above, ?_⟩
      rw [addressOf_append (Nat.le_of_lt above)]
    | unknownMnemonic there written =>
      cases getElem?_length_append.symm.trans there
      cases written
    | programTooLarge _ _ exceeds => exact absurd exceeds (not_exceeds fits rfl)
  · rintro ⟨first, declared, rfl⟩
    have inside := declared.lt_length
    rw [← addressOf_append (Nat.le_of_lt inside) (⟨raw, .label name⟩ :: back)]
    exact .duplicateLabel getElem?_length_append rfl inside (declared.append _)

/-- An instruction line is at fault exactly if its mnemonic is none or it is too large. -/
theorem layoutFault_instruction_iff (fits : totalSize mode front ≤ romSize) (head : Word)
    (operands : List Word) (fault : Fault) :
    LayoutFault mode (front ++ ⟨raw, .instruction head operands⟩ :: back) front.length fault ↔
      match Mnemonic.ofText? head.text with
      | none => fault = .unknownMnemonic head.text
      | some mnemonic => romSize < totalSize mode front + mnemonic.size mode ∧
        fault = .programTooLarge (totalSize mode front + mnemonic.size mode) := by
  have size : (Line.mk raw (.instruction head operands)).size mode =
      ((Mnemonic.ofText? head.text).map (·.size mode)).getD 0 := rfl
  constructor
  · intro layout
    cases layout with
    | duplicateLabel there label =>
      cases getElem?_length_append.symm.trans there
      cases label
    | unknownMnemonic there written unknown =>
      cases getElem?_length_append.symm.trans there
      cases written
      cases known : Mnemonic.ofText? head.text with
      | none => rfl
      | some mnemonic => exact absurd ((Mnemonic.ofText?_eq_some_iff _ _).mp known) (unknown _)
    | programTooLarge _ _ exceeds =>
      cases known : Mnemonic.ofText? head.text with
      | none =>
        rw [known] at size
        exact absurd exceeds (not_exceeds fits size)
      | some mnemonic =>
        rw [known] at size
        rw [addressOf_length_succ, size] at exceeds ⊢
        exact ⟨exceeds, rfl⟩
  · cases known : Mnemonic.ofText? head.text with
    | none =>
      rintro rfl
      refine .unknownMnemonic getElem?_length_append rfl fun mnemonic named => ?_
      rw [(Mnemonic.ofText?_eq_some_iff _ _).mpr named] at known
      cases known
    | some mnemonic =>
      rintro ⟨exceeds, rfl⟩
      rw [known] at size
      have total : addressOf mode (front ++ ⟨raw, .instruction head operands⟩ :: back)
          (front.length + 1) = totalSize mode front + mnemonic.size mode := by
        rw [addressOf_length_succ, size]
        rfl
      rw [← total] at exceeds ⊢
      refine .programTooLarge getElem?_length_append ?_ exceeds
      rw [addressOf_length_append]
      exact fits

/-- A line is refused exactly for its fault. -/
theorem place_reports (line : Line) (back : List Line) {table : Symbols}
    (fits : totalSize mode front ≤ romSize) (entries : table.entries = labelsFrom mode 0 front)
    (distinct : (front.filterMap Line.label?).Nodup) :
    match line.place mode (totalSize mode front) table with
    | .ok _ => ∀ fault, ¬LayoutFault mode (front ++ line :: back) front.length fault
    | .error failure => failure.line = line.raw.number ∧
      ∀ fault, LayoutFault mode (front ++ line :: back) front.length fault ↔
        fault = failure.fault := by
  have declaredAt := get?_eq_some_iff_declaredAt entries distinct
  obtain ⟨raw, content⟩ := line
  cases content with
  | blank => exact not_layoutFault_blank fits
  | label name =>
    simp only [layoutFault_label_iff fits, Line.place]
    cases found : table.get? name.text with
    | some earlier =>
      obtain ⟨first, declaring, there, label, rfl⟩ := (declaredAt _ _).mp found
      have declared := firstDeclares_of_nodup distinct there label
      simp only [Symbols.insert_of_declared found]
      refine ⟨rfl, fun fault => ⟨?_, ?_⟩⟩
      · rintro ⟨other, otherDeclared, rfl⟩
        rw [otherDeclared.unique declared]
        rfl
      · rintro rfl
        exact ⟨first, declared, rfl⟩
    | none =>
      simp only [Symbols.insert_of_new found]
      rintro fault ⟨first, ⟨⟨declaring, there, label⟩, _⟩, _⟩
      rw [(declaredAt _ _).mpr ⟨first, declaring, there, label, rfl⟩] at found
      cases found
  | instruction head operands =>
    simp only [layoutFault_instruction_iff fits, Line.place, Word.readMnemonic]
    cases Mnemonic.ofText? head.text with
    | none => exact ⟨rfl, fun _ => Iff.rfl⟩
    | some mnemonic =>
      simp only
      by_cases exceeds : romSize < totalSize mode front + mnemonic.size mode
      · rw [if_pos exceeds]
        exact ⟨rfl, fun _ => and_iff_right exceeds⟩
      · rw [if_neg exceeds]
        exact fun _ layout => exceeds layout.1

end

/-- **The first pass reports the first fault of the layout.** -/
theorem placeFrom_reports (mode : AddressMode) {lines : List Line}
    (numbers : ∀ index line, lines[index]? = some line → line.raw.number = index + 1) :
    Reports (LayoutFault mode lines) (placeFrom mode 0 {} lines).1 := by
  have start : 0 ≤ romSize := Nat.zero_le _
  have noneYet : ((Symbols.mk []).entries.map Prod.fst).Nodup := List.nodup_nil
  apply reports_of_steps (fun front => (placeFrom mode 0 {} front).1) rfl
  · intro front back failure stopped
    exact placeFrom_append_of_stopped stopped back
  · intro index fault layout
    cases layout with
    | duplicateLabel here | unknownMnemonic here | programTooLarge here =>
      exact (List.getElem?_eq_some_iff.mp here).1
  · intro front line back split through
    cases placed : placeFrom mode 0 {} front with
    | mk failure? table =>
      rw [placed] at through
      cases through
      obtain ⟨_, fits, entries, distinct⟩ := (placeFrom_zero_eq_none_iff _ _ _).mp placed
      have here := place_reports line back fits entries distinct
      rw [← split] at here
      rw [placeFrom_append start noneYet placed, Nat.zero_add, placeFrom]
      cases next : line.place mode (totalSize mode front) table with
      | ok moved =>
        rw [next] at here
        exact here
      | error failure =>
        rw [next] at here
        refine ⟨?_, here.2⟩
        rw [here.1, numbers front.length line (by rw [split]; exact getElem?_length_append)]

end Breadboard
