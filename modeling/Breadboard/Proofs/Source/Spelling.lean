import Breadboard.Proofs.Source.Reading

/-!
# Spellings

The marks of a line are its tokens without their places and their letter case. The same marks
can be spelled in many ways: words in either case, with any separators around them, and with
any comment behind them. `spells_iff` says that a line is read as the marks that it spells,
wherever it stands, and `marksOf_eq_iff` says the same of a text, whose lines may each end in a
carriage return or not.
-/

namespace Breadboard

/-- What is left of a token without its place and its letter case. -/
inductive Mark where
  | word (inCapitals : List Char)
  | colon
deriving DecidableEq, Repr

def Token.mark : Token → Mark
  | word _ characters => .word (capitals characters)
  | colon _ => .colon

/-- The marks of a line, as it is read at its place. -/
def RawLine.marks (raw : RawLine) : List Mark :=
  (tokenize raw.start raw.characters).map Token.mark

/-- The marks of all lines of a source text. -/
def marksOf (source : String) : List (List Mark) := (writtenLines source).map RawLine.marks

/-- The characters are one way to write the marks on a line. -/
inductive Spells : List Char → List Mark → Prop where
  | nothing : Spells [] []
  | comment {character : Char} (starts : startsComment character = true) (rest : List Char) :
      Spells (character :: rest) []
  | separator {character : Char} {rest : List Char} {marks : List Mark}
      (separates : isSeparator character = true) (spelled : Spells rest marks) :
      Spells (character :: rest) marks
  | colon {rest : List Char} {marks : List Mark} (spelled : Spells rest marks) :
      Spells (':' :: rest) (.colon :: marks)
  | word {word rest : List Char} {marks : List Mark} (isWord : IsWord word)
      (ends : ∀ character ∈ rest.head?, isWordCharacter character = false)
      (spelled : Spells rest marks) : Spells (word ++ rest) (.word (capitals word) :: marks)

/-- A line spells the marks that it is read as. -/
theorem spells_tokenize (place : Nat) (characters : List Char) :
    Spells characters ((tokenize place characters).map Token.mark) := by
  fun_induction tokenize place characters with
  | case1 => exact .nothing
  | case2 place character rest comment => exact .comment comment rest
  | case3 place character rest noComment separator ih => exact .separator separator ih
  | case4 place rest noComment noSeparator ih => exact .colon ih
  | case5 place character rest noComment noSeparator noColon word ih =>
    have starts := isWordCharacter_of_not noComment noSeparator noColon
    rw [cons_eq_word_append character]
    exact .word (isWord_cons_takeWhile rest starts) (head?_dropWhile_isWordCharacter rest) ih

/-- **A line is read as what it spells**, wherever it stands. -/
theorem Spells.map_mark_tokenize {characters : List Char} {marks : List Mark}
    (spelled : Spells characters marks) (place : Nat) :
    (tokenize place characters).map Token.mark = marks := by
  induction spelled generalizing place with
  | nothing =>
    rw [tokenize]
    rfl
  | comment starts rest =>
    rw [tokenize, if_pos starts]
    rfl
  | separator separates _ ih =>
    rw [tokenize, if_neg (not_startsComment_of_isSeparator separates), if_pos separates, ih]
  | colon _ ih =>
    rw [tokenize, if_neg (by decide), if_neg (by decide), if_pos rfl, List.map_cons, ih]
    rfl
  | word isWord ends _ ih =>
    rw [tokenize_word_append place isWord (takeWhile_eq_nil_of_ends ends), List.map_cons, ih]
    rfl

theorem spells_iff (place : Nat) (characters : List Char) (marks : List Mark) :
    Spells characters marks ↔ (tokenize place characters).map Token.mark = marks := by
  constructor
  · exact fun spelled => spelled.map_mark_tokenize place
  · rintro rfl
    exact spells_tokenize place characters

/-- A separator at the end of a line does not change what is spelled. -/
theorem Spells.append_separator {characters : List Char} {marks : List Mark} {last : Char}
    (spelled : Spells characters marks) (separates : isSeparator last = true) :
    Spells (characters ++ [last]) marks := by
  induction spelled with
  | nothing => exact .separator separates .nothing
  | comment starts rest => exact .comment starts (rest ++ [last])
  | separator earlier _ ih => exact .separator earlier ih
  | colon _ ih => exact .colon ih
  | @word word rest marks isWord ends _ ih =>
    rw [List.append_assoc]
    refine .word isWord ?_ ih
    cases rest with
    | nil =>
      intro character first
      cases first
      exact isWordCharacter_of_isSeparator separates
    | cons following others => exact ends

/-- The carriage return at the end of a line does not change what is spelled. -/
theorem spells_withoutReturn_iff (line : List Char) (marks : List Mark) :
    Spells (withoutReturn line) marks ↔ Spells line marks := by
  unfold withoutReturn
  split
  next ends =>
    have whole : line.dropLast ++ ['\r'] = line := by
      rw [List.getLast?_eq_some_iff] at ends
      obtain ⟨front, rfl⟩ := ends
      rw [List.dropLast_concat]
    have again (shorter : List Mark) (spelled : Spells line.dropLast shorter) :
        Spells line shorter := by
      rw [← whole]
      exact spelled.append_separator rfl
    constructor
    · exact again marks
    · -- What the shorter line spells, the whole line spells too, and a line spells one thing.
      intro spelled
      have shorter := spells_tokenize 0 line.dropLast
      rw [← spelled.map_mark_tokenize 0, (again _ shorter).map_mark_tokenize 0]
      exact shorter
  next => exact Iff.rfl

theorem RawLine.marks_eq_iff (number start : Nat) (line : List Char) (marks : List Mark) :
    RawLine.marks ⟨number, start, withoutReturn line⟩ = marks ↔ Spells line marks := by
  rw [← spells_withoutReturn_iff, spells_iff start]
  rfl

/-- **A text is read as what its lines spell.** It does not matter which of them end in a carriage
return. -/
theorem marksOf_eq_iff (source : String) (marks : List (List Mark)) :
    marksOf source = marks ↔ List.Forall₂ Spells (splitLines source.toList) marks := by
  suffices placed : ∀ lines number start,
      (placeLines number start lines).map RawLine.marks = marks ↔
        List.Forall₂ Spells lines marks from placed _ 1 0
  intro lines
  induction lines generalizing marks with
  | nil =>
    intro number start
    rw [List.forall₂_nil_left_iff, eq_comm]
    rfl
  | cons line lines ih =>
    intro number start
    rw [placeLines, List.map_cons]
    constructor
    · rintro rfl
      exact .cons ((RawLine.marks_eq_iff _ _ _ _).mp rfl) ((ih _ _ _).mp rfl)
    · intro spelled
      cases spelled with
      | cons first rest =>
        rw [(RawLine.marks_eq_iff _ _ _ _).mpr first, (ih _ _ _).mpr rest]

end Breadboard
