import Breadboard.Proofs.Source.Scanning

/-!
# The form of a line

A line declares a label if, its comment and its separators aside, it is one identifier and
one colon. With any other colon in front of its comment it is at fault, and without one it is
blank or holds its words (`ofTokens_tokenize`).
-/

namespace Breadboard

/-- The line is one identifier and one colon, its comment and its separators aside. -/
def DeclaresLabel (characters name : List Char) : Prop :=
  isIdentifier name ∧ ∃ before between after, codeOf characters =
      before ++ (name ++ (between ++ ':' :: after)) ∧
    (∀ character ∈ before, isSeparator character = true) ∧
    (∀ character ∈ between, isSeparator character = true) ∧
    ∀ character ∈ after, isSeparator character = true

/-- What the characters of a line say. -/
inductive Says (characters : List Char) : Content → Prop where
  | blank (noColon : ':' ∉ codeOf characters) (noWord : wordsOf (codeOf characters) = []) :
      Says characters .blank
  | label {name : List Char} {word : Word} (declares : DeclaresLabel characters name)
      (text : word.text = String.ofList (capitals name)) : Says characters (.label word)
  | instruction {head : Word} {operands : List Word} (noColon : ':' ∉ codeOf characters)
      (texts : (head :: operands).map (·.text) = inCapitals (wordsOf (codeOf characters))) :
      Says characters (.instruction head operands)

/-- A colon that is not part of a label line. The fault names the last word in front of the
first colon, or that colon. -/
structure FormFault (characters : List Char) (fault : Fault) : Prop where
  colon : ':' ∈ codeOf characters
  noLabel : ∀ name, ¬DeclaresLabel characters name
  blames : fault = .invalidLabel ((inCapitals (leadingWords characters)).getLast?.getD ":")

/-- Letters, digits and underscores belong to words. -/
theorem isWordCharacter_of_name {character : Char}
    (inName : (character.isAlphanum || character == '_') = true) :
    isWordCharacter character = true := by
  rw [isWordCharacter_iff, ← Bool.not_eq_true, ← Bool.not_eq_true, isSeparator, startsComment]
  simp only [Bool.or_eq_true, beq_iff_eq]
  refine ⟨?_, ?_, ?_⟩
  · rintro ((((rfl | rfl) | rfl) | rfl) | rfl) <;> cases inName
  · rintro (rfl | rfl) <;> cases inName
  · rintro rfl
    cases inName

/-- An identifier is read as one word. -/
theorem isWord_of_isIdentifier {name : List Char} (identifier : isIdentifier name) :
    IsWord name := by
  cases name with
  | nil => cases identifier
  | cons first rest =>
    rw [isIdentifier, Bool.and_eq_true, List.all_eq_true] at identifier
    obtain ⟨starts, others⟩ := identifier
    refine ⟨List.cons_ne_nil first rest, ?_⟩
    rw [List.forall_mem_cons]
    refine ⟨isWordCharacter_of_name ?_, fun character member =>
      isWordCharacter_of_name (others character member)⟩
    rw [Bool.or_eq_true] at starts ⊢
    rcases starts with letter | underscore
    · left
      rw [Char.isAlphanum, letter, Bool.true_or]
    · exact .inr underscore

section

variable {characters : List Char}

/-- Without a colon, all words of a line are in front of it. -/
theorem leadingWords_eq_wordsOf (noColon : ':' ∉ codeOf characters) :
    leadingWords characters = wordsOf (codeOf characters) := by
  have allOther : ∀ character ∈ codeOf characters, (character != ':') = true := by
    intro character member
    rw [bne_iff_ne]
    rintro rfl
    exact noColon member
  have whole : (codeOf characters ++ []).takeWhile (· != ':') = codeOf characters ++ [] :=
    List.takeWhile_append_of_pos allOther
  rw [List.append_nil] at whole
  rw [leadingWords, whole]

/-- A label line has two tokens. -/
theorem tokenize_of_declaresLabel {name : List Char} (place : Nat)
    (declares : DeclaresLabel characters name) :
    ∃ start colon, tokenize place characters = [.word start name, .colon colon] := by
  -- The code is read piece by piece: separators, the name, separators, the colon, separators.
  obtain ⟨identifier, before, between, after, code, separated, spaced, trailing⟩ := declares
  have isWord := isWord_of_isIdentifier identifier
  have atEnd (place : Nat) : tokenize place after = [] := by
    have passed := tokenize_separators_append place trailing []
    rwa [List.append_nil, tokenize] at passed
  have ends : (between ++ ':' :: after).takeWhile isWordCharacter = [] := by
    apply takeWhile_eq_nil_of_ends
    intro character first
    cases between with
    | nil =>
      cases first
      rfl
    | cons separator others =>
      cases first
      exact isWordCharacter_of_isSeparator (spaced character List.mem_cons_self)
  refine ⟨place + utf8Length before,
    place + utf8Length before + utf8Length name + utf8Length between, ?_⟩
  rw [← tokenize_codeOf, code, tokenize_separators_append place separated,
    tokenize_word_append _ isWord ends, tokenize_separators_append _ spaced, tokenize,
    if_neg (by decide), if_neg (by decide), if_pos rfl, atEnd]

/-- Two tokens that may be a label are one. -/
theorem declaresLabel_of_tokenize {name : List Char} {place start colon : Nat}
    (identifier : isIdentifier name)
    (read : tokenize place characters = [.word start name, .colon colon]) :
    DeclaresLabel characters name := by
  obtain ⟨before, following, _, separated, code, behind⟩ := exists_split_of_tokenize_eq_cons read
  obtain ⟨between, others, _, spaced, rest, atEnd⟩ := exists_split_of_tokenize_eq_cons behind
  refine ⟨identifier, before, between, codeOf others, ?_, separated, spaced,
    isSeparator_of_tokenize_eq_nil atEnd⟩
  rw [code, rest]
  rfl

/-- A label is read where one is declared. -/
theorem declares_of_declaredLabel? {place : Nat} {word : Word}
    (read : Content.declaredLabel? (tokenize place characters) = some word) :
    ∃ name, DeclaresLabel characters name ∧ word.text = String.ofList (capitals name) := by
  unfold Content.declaredLabel? at read
  split at read
  next start name colon tokens =>
    split at read
    next identifier =>
      cases read
      exact ⟨name, declaresLabel_of_tokenize identifier tokens, rfl⟩
    next => cases read
  next => cases read

/-- No label is declared where none is read. -/
theorem not_declares_of_declaredLabel? {place : Nat}
    (read : Content.declaredLabel? (tokenize place characters) = none) (name : List Char) :
    ¬DeclaresLabel characters name := by
  intro declares
  obtain ⟨start, colon, tokens⟩ := tokenize_of_declaresLabel place declares
  rw [tokens, Content.declaredLabel?, if_pos declares.1] at read
  cases read

/-- **The form of a line.** What is read is what the characters say, and a line at fault is
one that says nothing. -/
theorem ofTokens_tokenize (place : Nat) (characters : List Char) :
    match Content.ofTokens (tokenize place characters) with
    | .ok content => Says characters content ∧ ∀ fault, ¬FormFault characters fault
    | .error (_, fault) => FormFault characters fault := by
  have words := wordsBeforeColon_tokenize place characters
  have colon := isSome_wordsBeforeColon_tokenize_iff place characters
  unfold Content.ofTokens
  cases label : Content.declaredLabel? (tokenize place characters) with
  | some word =>
    obtain ⟨name, declares, text⟩ := declares_of_declaredLabel? label
    exact ⟨.label declares text, fun _ fault => fault.noLabel name declares⟩
  | none =>
    cases read : Content.wordsBeforeColon (tokenize place characters) with
    | mk before colon? =>
      rw [read] at words colon
      cases colon? with
      | none =>
        have noColon : ':' ∉ codeOf characters := by simpa using colon
        rw [leadingWords_eq_wordsOf noColon] at words
        have noFault : ∀ fault, ¬FormFault characters fault := fun _ fault => noColon fault.colon
        cases before with
        | nil =>
          refine ⟨.blank noColon ?_, noFault⟩
          exact List.map_eq_nil_iff.mp words.symm
        | cons head operands => exact ⟨.instruction noColon words, noFault⟩
      | some place =>
        have noLabel := not_declares_of_declaredLabel? label
        have inCode : ':' ∈ codeOf characters := by simpa using colon
        cases last : before.getLast? with
        | none =>
          cases List.getLast?_eq_none_iff.mp last
          refine ⟨inCode, noLabel, ?_⟩
          rw [← words]
          rfl
        | some word =>
          cases before with
          | nil => cases last
          | cons head operands =>
            simp only [last]
            refine ⟨inCode, noLabel, ?_⟩
            rw [← words, List.getLast?_map, last]
            rfl
end

namespace Line

/-- A line that is read says what its characters say, and has no fault. -/
theorem ofRaw_eq_ok {raw : RawLine} {line : Line} (read : ofRaw raw = .ok line) :
    line.raw = raw ∧ Says raw.characters line.content ∧
      ∀ fault, ¬FormFault raw.characters fault := by
  have form := ofTokens_tokenize raw.start raw.characters
  unfold ofRaw at read
  cases tokens : Content.ofTokens (tokenize raw.start raw.characters) with
  | ok content =>
    rw [tokens] at read form
    cases read
    exact ⟨rfl, form⟩
  | error failure =>
    rw [tokens] at read
    cases read

/-- A line that is not read is at fault. -/
theorem ofRaw_eq_error {raw : RawLine} {failure : CompileError}
    (read : ofRaw raw = .error failure) :
    failure.line = raw.number ∧ FormFault raw.characters failure.fault := by
  have form := ofTokens_tokenize raw.start raw.characters
  unfold ofRaw at read
  cases tokens : Content.ofTokens (tokenize raw.start raw.characters) with
  | ok content =>
    rw [tokens] at read
    cases read
  | error found =>
    rw [tokens] at read form
    cases read
    exact ⟨rfl, form⟩

end Line

end Breadboard
