import Breadboard.Proofs.Source.NormalForm
import Breadboard.Proofs.Source.Spelling

/-!
# Texts that are laid out differently

Two texts with the same marks are read in step: into lines that are numbered alike and say the
same, or up to the same line, with the same fault (`readSource_agree`). Their places differ
all over, so results and failures are compared by a relation, not by equality.
-/

namespace Breadboard

/-- Both are results that are related, or both are failures that are. -/
inductive Agree {ε δ α β : Type} (failures : ε → δ → Prop) (results : α → β → Prop) :
    Except ε α → Except δ β → Prop where
  | ok {result : α} {other : β} (related : results result other) :
      Agree failures results (.ok result) (.ok other)
  | error {failure : ε} {other : δ} (related : failures failure other) :
      Agree failures results (.error failure) (.error other)

namespace Agree

variable {ε δ α β γ ζ : Type} {failures : ε → δ → Prop} {results : α → β → Prop}
  {others : γ → ζ → Prop}

theorem bind {first : Except ε α} {second : Except δ β}
    (agree : Agree failures results first second)
    {next : α → Except ε γ} {following : β → Except δ ζ}
    (rest : ∀ result other, results result other →
      Agree failures others (next result) (following other)) :
    Agree failures others (first >>= next) (second >>= following) := by
  cases agree with
  | ok related => exact rest _ _ related
  | error related => exact .error related

/-- Lists that agree item by item agree as a whole, up to the first failure. -/
theorem mapM {read : α → Except ε γ} {readOther : β → Except δ ζ} {items : List α}
    {twins : List β}
    (agree : List.Forall₂ (fun item twin => Agree failures others (read item) (readOther twin))
      items twins) :
    Agree failures (List.Forall₂ others) (items.mapM read) (twins.mapM readOther) := by
  induction agree with
  | nil => exact .ok .nil
  | cons first _ ih =>
    rw [List.mapM_cons, List.mapM_cons]
    refine first.bind fun result other related => ih.bind fun results otherResults rest => ?_
    exact .ok (.cons related rest)

end Agree

/-- The same fault, whatever it is blamed on. -/
def SameFault (failure other : Span × Fault) : Prop := failure.2 = other.2

/-- The same fault in the same line, whatever is written there. -/
structure CompileError.Alike (failure other : CompileError) : Prop where
  line : failure.line = other.line
  fault : failure.fault = other.fault

/-- Two lines with the same number that say the same. -/
structure Line.Twin (line other : Line) : Prop where
  number : line.raw.number = other.raw.number
  content : line.content.Alike other.content

theorem Word.text_ofCharacters (start : Nat) (characters : List Char) :
    (Word.ofCharacters start characters).text = String.ofList (capitals characters) := rfl

namespace Content

section

variable {tokens others : List Token} (same : tokens.map Token.mark = others.map Token.mark)

include same

/-- Whether tokens declare a label, and which, depends on their marks. -/
theorem exists_declaredLabel?_of_marks {name : Word}
    (declared : declaredLabel? tokens = some name) :
    ∃ other, declaredLabel? others = some other ∧ name.text = other.text := by
  unfold declaredLabel? at declared
  split at declared
  next start characters colon =>
    split at declared
    next identifier =>
      cases declared
      obtain ⟨first, rest, rfl, firstMark, restMarks⟩ := List.map_eq_cons_iff.mp same.symm
      obtain ⟨second, rfl, secondMark⟩ := List.map_eq_singleton_iff.mp restMarks
      cases first with
      | colon => cases firstMark
      | word otherStart otherCharacters =>
        have letters : capitals otherCharacters = capitals characters := Mark.word.inj firstMark
        have otherIdentifier : isIdentifier otherCharacters := by
          rw [← isIdentifier_capitals, letters, isIdentifier_capitals]
          exact identifier
        cases second with
        | word => cases secondMark
        | colon =>
          refine ⟨.ofCharacters otherStart otherCharacters, if_pos otherIdentifier, ?_⟩
          rw [Word.text_ofCharacters, Word.text_ofCharacters, letters]
    next => cases declared
  next => cases declared

/-- The words in front of the first colon depend on the marks, and so does whether there is a
colon. -/
theorem wordsBeforeColon_of_marks :
    (wordsBeforeColon tokens).1.map (·.text) = (wordsBeforeColon others).1.map (·.text) ∧
      (wordsBeforeColon tokens).2.isSome = (wordsBeforeColon others).2.isSome := by
  induction tokens generalizing others with
  | nil =>
    cases List.map_eq_nil_iff.mp same.symm
    exact ⟨rfl, rfl⟩
  | cons token tokens ih =>
    obtain ⟨other, rest, rfl, mark, marks⟩ := List.map_eq_cons_iff.mp same.symm
    obtain ⟨words, colon⟩ := ih marks.symm
    cases token with
    | colon =>
      cases other with
      | colon => exact ⟨rfl, rfl⟩
      | word => cases mark
    | word start characters =>
      cases other with
      | colon => cases mark
      | word otherStart otherCharacters =>
        have letters : capitals otherCharacters = capitals characters := Mark.word.inj mark
        refine ⟨?_, colon⟩
        simp only [wordsBeforeColon, List.map_cons, words, Word.text_ofCharacters, letters]

/-- **What a line says depends on its marks**, and so does its fault if it says nothing. -/
theorem ofTokens_of_marks : Agree SameFault Alike (ofTokens tokens) (ofTokens others) := by
  obtain ⟨texts, colon⟩ := wordsBeforeColon_of_marks same
  unfold ofTokens
  cases label : declaredLabel? tokens with
  | some name =>
    obtain ⟨other, otherLabel, text⟩ := exists_declaredLabel?_of_marks same label
    rw [otherLabel]
    exact .ok (.label text)
  | none =>
    have otherLabel : declaredLabel? others = none := by
      rw [Option.eq_none_iff_forall_ne_some]
      intro other declared
      obtain ⟨name, declaredHere, _⟩ := exists_declaredLabel?_of_marks same.symm declared
      rw [label] at declaredHere
      cases declaredHere
    rw [otherLabel]
    generalize wordsBeforeColon tokens = read at texts colon ⊢
    generalize wordsBeforeColon others = otherRead at texts colon ⊢
    obtain ⟨words, colon?⟩ := read
    obtain ⟨otherWords, otherColon?⟩ := otherRead
    cases colon? with
    | none =>
      cases Option.not_isSome_iff_eq_none.mp (ne_true_of_eq_false colon.symm)
      cases words with
      | nil =>
        cases List.map_eq_nil_iff.mp texts.symm
        exact .ok .blank
      | cons head operands =>
        obtain ⟨otherHead, otherOperands, rfl, _, _⟩ := List.map_eq_cons_iff.mp texts.symm
        exact .ok (.instruction texts)
    | some place =>
      obtain ⟨otherPlace, rfl⟩ := Option.isSome_iff_exists.mp colon.symm
      have last := congrArg List.getLast? texts
      rw [List.getLast?_map, List.getLast?_map] at last
      cases blamed : words.getLast? with
      | none =>
        rw [blamed, Option.map_none, eq_comm, Option.map_eq_none_iff] at last
        simp only [blamed, last]
        exact .error rfl
      | some word =>
        rw [blamed, Option.map_some, eq_comm, Option.map_eq_some_iff] at last
        obtain ⟨otherWord, otherBlamed, text⟩ := last
        simp only [blamed, otherBlamed]
        exact .error (congrArg Fault.invalidLabel text.symm)

end

end Content

namespace Line

/-- Lines with the same number and the same marks are twins, or at fault alike. -/
theorem ofRaw_agree {raw other : RawLine} (number : raw.number = other.number)
    (marks : raw.marks = other.marks) :
    Agree CompileError.Alike Twin (ofRaw raw) (ofRaw other) := by
  have contents := Content.ofTokens_of_marks marks
  unfold ofRaw
  generalize Content.ofTokens (tokenize raw.start raw.characters) = reading at contents
  generalize Content.ofTokens (tokenize other.start other.characters) = otherReading at contents
  cases contents with
  | ok alike => exact .ok ⟨number, alike⟩
  | error same => exact .error ⟨number, same⟩

end Line

/-- **Texts with the same marks are read in step.** -/
theorem readSource_agree {source other : String} (same : marksOf source = marksOf other) :
    Agree CompileError.Alike (List.Forall₂ Line.Twin) (readSource source) (readSource other) := by
  suffices inStep : ∀ lines others number start otherStart,
      (placeLines number start lines).map RawLine.marks =
        (placeLines number otherStart others).map RawLine.marks →
      List.Forall₂ (fun raw twin => Agree CompileError.Alike Line.Twin (Line.ofRaw raw)
        (Line.ofRaw twin)) (placeLines number start lines) (placeLines number otherStart others)
    from Agree.mapM (inStep _ _ 1 0 0 same)
  intro lines
  induction lines with
  | nil =>
    intro others number start otherStart same
    cases others with
    | nil => exact .nil
    | cons => cases same
  | cons line lines ih =>
    intro others number start otherStart same
    cases others with
    | nil => cases same
    | cons twin others =>
      obtain ⟨first, rest⟩ := List.cons.inj same
      exact .cons (Line.ofRaw_agree rfl first) (ih others _ _ _ rest)

end Breadboard
