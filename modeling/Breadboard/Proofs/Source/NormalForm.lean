import Breadboard.Proofs.Source.Reading

/-!
# Normal forms of lines

The normal form of a line is its words in capitals, one space apart, or the name that it
declares in capitals with a colon behind it. Such a text is read as a line that says the same
(`Says.ofTokens_text`), since capitals are their own capitals and name the same.
-/

namespace Breadboard

/-- Two lines say the same, at whatever places their words stand. -/
inductive Content.Alike : Content → Content → Prop where
  | blank : Alike .blank .blank
  | label {name other : Word} (text : name.text = other.text) : Alike (.label name) (.label other)
  | instruction {head otherHead : Word} {operands otherOperands : List Word}
      (texts : (head :: operands).map (·.text) = (otherHead :: otherOperands).map (·.text)) :
      Alike (.instruction head operands) (.instruction otherHead otherOperands)

/-- The normal form of a line depends on its texts only. -/
theorem Content.Alike.text_eq {content other : Content} (alike : content.Alike other) :
    content.text = other.text := by
  cases alike with
  | blank => rfl
  | label text => rw [Content.text, text, Content.text]
  | instruction texts =>
    rw [List.map_cons, List.map_cons] at texts
    rw [Content.text, texts, Content.text]

/-- Only letters have another capital, and it is a letter. -/
theorem toUpper_eq_self_or (character : Char) :
    character.toUpper = character ∨ character.isAlpha ∧ character.toUpper.isAlpha := by
  have letters : ∀ offset < 26, (Char.ofNat ('a'.toNat + offset)).isAlpha ∧
      (Char.ofNat ('A'.toNat + offset)).isAlpha := by decide
  obtain unchanged | ⟨offset, few, small, capital⟩ := toUpper_cases character
  · exact .inl unchanged
  · right
    rw [capital, small]
    exact letters offset few

theorem isWordCharacter_toUpper {character : Char} (inWord : isWordCharacter character = true) :
    isWordCharacter character.toUpper = true := by
  rcases toUpper_eq_self_or character with same | ⟨_, letter⟩
  · rw [same]
    exact inWord
  · apply isWordCharacter_of_name
    rw [Char.isAlphanum, letter, Bool.true_or, Bool.true_or]

/-- A word in capitals is a word. -/
theorem IsWord.capitals {word : List Char} (isWord : IsWord word) : IsWord (capitals word) := by
  obtain ⟨someCharacter, allWord⟩ := isWord
  unfold Breadboard.capitals
  refine ⟨?_, ?_⟩
  · rw [ne_eq, List.map_eq_nil_iff]
    exact someCharacter
  · rw [List.forall_mem_map]
    exact fun character member => isWordCharacter_toUpper (allWord character member)

/-- Whether a character may stand in a name does not depend on its case. -/
theorem inName_toUpper (character : Char) :
    (character.toUpper.isAlphanum || character.toUpper == '_') =
      (character.isAlphanum || character == '_') := by
  rcases toUpper_eq_self_or character with same | ⟨letter, capital⟩
  · rw [same]
  · rw [Char.isAlphanum, capital, Char.isAlphanum, letter]
    rfl

theorem startsName_toUpper (character : Char) :
    (character.toUpper.isAlpha || character.toUpper == '_') =
      (character.isAlpha || character == '_') := by
  rcases toUpper_eq_self_or character with same | ⟨letter, capital⟩
  · rw [same]
  · rw [capital, letter]
    rfl

/-- A name in capitals is a name, and no other word in capitals is one. -/
theorem isIdentifier_capitals (name : List Char) :
    isIdentifier (capitals name) = isIdentifier name := by
  cases name with
  | nil => rfl
  | cons first rest =>
    rw [capitals, List.map_cons, isIdentifier, isIdentifier, startsName_toUpper, List.all_map]
    congr 2
    funext character
    exact inName_toUpper character

section

variable {characters name : List Char} {words : List (List Char)} {word head : Word}
  {operands : List Word}

theorem toList_text_label (text : word.text = String.ofList (capitals name)) :
    (Content.label word).text.toList = capitals name ++ [':'] := by
  rw [Content.text, text, String.toList_append, String.toList_ofList]
  rfl

theorem toList_text_instruction (texts : (head :: operands).map (·.text) = inCapitals words) :
    (Content.instruction head operands).text.toList = [' '].intercalate (words.map capitals) := by
  rw [List.map_cons] at texts
  rw [Content.text, texts, String.toList_intercalate, inCapitals, List.map_map]
  congr 1
  apply List.map_congr_left
  intro word _
  exact String.toList_ofList

/-- The words of an instruction line can be read as words. -/
theorem isWord_of_mem_wordsOf_codeOf (noColon : ':' ∉ codeOf characters) :
    ∀ word ∈ (wordsOf (codeOf characters)).map capitals, IsWord word := by
  rw [← leadingWords_eq_wordsOf noColon, List.forall_mem_map]
  exact fun word member => (isWord_of_mem_leadingWords characters word member).capitals

/-- In a normal form, nothing but spaces and a colon stands between words. -/
theorem Says.not_mem_text {content : Content} (said : Says characters content) {character : Char}
    (other : isWordCharacter character = false) (noSpace : character ≠ ' ')
    (noColon : character ≠ ':') : character ∉ content.text.toList := by
  have notIn {word : List Char} (isWord : IsWord word) : character ∉ word := by
    intro member
    rw [isWord.2 character member] at other
    cases other
  cases said with
  | blank => exact List.not_mem_nil
  | label declares text =>
    rw [toList_text_label text, List.mem_append, List.mem_singleton]
    rintro (inName | colon)
    · exact notIn (isWord_of_isIdentifier declares.1).capitals inName
    · exact noColon colon
  | instruction noColons texts =>
    rw [toList_text_instruction texts]
    apply not_mem_intercalate_space noSpace
    exact fun word member => notIn (isWord_of_mem_wordsOf_codeOf noColons word member)

/-- **The normal form of a line is read as a line that says the same.** -/
theorem Says.ofTokens_text {content : Content} (said : Says characters content)
    (someText : content ≠ .blank) (place : Nat) :
    ∃ again, Content.ofTokens (tokenize place content.text.toList) = .ok again ∧
      content.Alike again := by
  cases said with
  | blank => exact absurd rfl someText
  | @label name word declares text =>
    have identifier := (isIdentifier_capitals name).trans declares.1
    have isWord := isWord_of_isIdentifier identifier
    have tokens : tokenize place (capitals name ++ [':']) =
        [.word place (capitals name), .colon (place + utf8Length (capitals name))] := by
      rw [tokenize_word_append place isWord rfl, tokenize, if_neg (by decide), if_neg (by decide),
        if_pos rfl, tokenize]
    refine ⟨.label (.ofCharacters place (capitals name)), ?_, .label ?_⟩
    · rw [toList_text_label text, tokens, Content.ofTokens, Content.declaredLabel?,
        if_pos identifier]
    · rw [text, Word.ofCharacters, capitals_capitals]
  | @instruction head operands noColon texts =>
    have isWord := isWord_of_mem_wordsOf_codeOf noColon
    rw [toList_text_instruction texts, tokenize_intercalate place _ isWord]
    cases words : wordsOf (codeOf characters) with
    | nil =>
      rw [words] at texts
      cases texts
    | cons first rest =>
      obtain ⟨again, others, read, same⟩ :=
        ofTokens_placedWords place (capitals first) (rest.map capitals)
      refine ⟨.instruction again others, read, .instruction ?_⟩
      rw [texts, same, words, ← List.map_cons, List.map_map]
      apply List.map_congr_left
      intro word _
      rw [Function.comp_apply, capitals_capitals]

end

end Breadboard
