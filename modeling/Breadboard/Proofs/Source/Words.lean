import Breadboard.Source.Line

/-!
# Reading words that were written one space apart

A line of words with one space between them is read as exactly these words, and lines
with one line feed between them are split into exactly these lines. Both need that no
word and no line contains what separates it from the next one.
-/

namespace Breadboard

/-- Characters that are read as one word. -/
def IsWord (characters : List Char) : Prop :=
  characters ≠ [] ∧ ∀ character ∈ characters, isWordCharacter character

theorem isWord_of_all {characters : List Char}
    (check : !characters.isEmpty && characters.all isWordCharacter) : IsWord characters := by
  rw [Bool.and_eq_true, Bool.not_eq_true', List.isEmpty_eq_false_iff, List.all_eq_true] at check
  exact check

/-- The tokens of words that stand one space apart. -/
def placedWords (place : Nat) : List (List Char) → List Token
  | [] => []
  | word :: rest => .word place word :: placedWords (place + utf8Length word + 1) rest

theorem isWordCharacter_iff (character : Char) :
    isWordCharacter character ↔
      isSeparator character = false ∧ startsComment character = false ∧ character ≠ ':' := by
  rw [isWordCharacter, Bool.and_eq_true, Bool.and_eq_true, Bool.not_eq_true', Bool.not_eq_true',
    bne_iff_ne, and_assoc]

theorem isWordCharacter_of_isSeparator {character : Char}
    (separates : isSeparator character = true) : isWordCharacter character = false := by
  rw [isWordCharacter, separates]
  rfl

theorem takeWhile_eq_nil_of_ends {rest : List Char}
    (ends : ∀ character ∈ rest.head?, isWordCharacter character = false) :
    rest.takeWhile isWordCharacter = [] := by
  cases rest with
  | nil => rfl
  | cons following others =>
    apply List.takeWhile_cons_of_neg
    rw [ends following rfl]
    exact Bool.false_ne_true

/-- A word reaches up to the first character that belongs to no word. -/
theorem tokenize_word_append (place : Nat) {word following : List Char} (isWord : IsWord word)
    (ends : following.takeWhile isWordCharacter = []) :
    tokenize place (word ++ following) =
      .word place word :: tokenize (place + utf8Length word) following := by
  obtain ⟨someCharacter, allWord⟩ := isWord
  cases word with
  | nil => exact absurd rfl someCharacter
  | cons first rest =>
    rw [List.forall_mem_cons, isWordCharacter_iff] at allWord
    obtain ⟨⟨noSeparator, noComment, noColon⟩, allRest⟩ := allWord
    have noneDropped : following.dropWhile isWordCharacter = following := by
      have whole := List.takeWhile_append_dropWhile (p := isWordCharacter) (l := following)
      rwa [ends, List.nil_append] at whole
    rw [List.cons_append, tokenize, noComment, noSeparator, if_neg noColon,
      List.takeWhile_append_of_pos allRest, List.dropWhile_append_of_pos allRest, ends,
      noneDropped, List.append_nil]
    rfl

/-- **Words that were written one space apart are read one by one.** -/
theorem tokenize_intercalate (place : Nat) (words : List (List Char))
    (isWord : ∀ word ∈ words, IsWord word) :
    tokenize place ([' '].intercalate words) = placedWords place words := by
  induction words generalizing place with
  | nil =>
    rw [List.intercalate_nil, tokenize]
    rfl
  | cons word rest ih =>
    rw [List.forall_mem_cons] at isWord
    cases rest with
    | nil =>
      have alone := tokenize_word_append place isWord.1 (rfl : [].takeWhile isWordCharacter = [])
      rw [List.append_nil, tokenize] at alone
      rw [List.intercalate_singleton, alone]
      rfl
    | cons next others =>
      have rest := ih (place + utf8Length word + 1) isWord.2
      have space : tokenize (place + utf8Length word) (' ' :: [' '].intercalate (next :: others)) =
          tokenize (place + utf8Length word + 1) ([' '].intercalate (next :: others)) := by
        rw [tokenize]
        rfl
      rw [List.intercalate_cons_cons, List.append_assoc, List.singleton_append,
        tokenize_word_append place isWord.1 rfl, space, rest]
      rfl

theorem not_mem_intercalate_space {character : Char} (noSpace : character ≠ ' ')
    {words : List (List Char)} (absent : ∀ word ∈ words, character ∉ word) :
    character ∉ [' '].intercalate words := by
  induction words with
  | nil => exact List.not_mem_nil
  | cons word rest ih =>
    rw [List.forall_mem_cons] at absent
    cases rest with
    | nil =>
      rw [List.intercalate_singleton]
      exact absent.1
    | cons next others =>
      rw [List.intercalate_cons_cons, List.mem_append, List.mem_append, List.mem_singleton]
      rintro ((here | space) | later)
      · exact absent.1 here
      · exact noSpace space
      · exact ih absent.2 later

theorem wordsBeforeColon_placedWords (place : Nat) (words : List (List Char)) :
    ∃ placed, Content.wordsBeforeColon (placedWords place words) = (placed, none) ∧
      placed.map (·.text) = words.map fun word => String.ofList (capitals word) := by
  induction words generalizing place with
  | nil => exact ⟨[], rfl, rfl⟩
  | cons word rest ih =>
    obtain ⟨placed, read, texts⟩ := ih (place + utf8Length word + 1)
    refine ⟨Word.ofCharacters place word :: placed, ?_, ?_⟩
    · rw [placedWords, Content.wordsBeforeColon, read]
    · rw [List.map_cons, texts]
      rfl

/-- A line of words holds a mnemonic, the first word, and operands, the others. -/
theorem ofTokens_placedWords (place : Nat) (word : List Char) (rest : List (List Char)) :
    ∃ head operands,
      Content.ofTokens (placedWords place (word :: rest)) = .ok (.instruction head operands) ∧
        (head :: operands).map (·.text) =
          (word :: rest).map fun other => String.ofList (capitals other) := by
  obtain ⟨placed, read, texts⟩ := wordsBeforeColon_placedWords place (word :: rest)
  have noLabel : Content.declaredLabel? (placedWords place (word :: rest)) = none := by
    cases rest <;> rfl
  cases placed with
  | nil => cases texts
  | cons head operands =>
    refine ⟨head, operands, ?_, texts⟩
    rw [Content.ofTokens, noLabel, read]

theorem splitLines_eq_splitOn (text : List Char) : splitLines text = text.splitOn '\n' := by
  induction text with
  | nil => rfl
  | cons character rest ih =>
    rw [List.splitOn_cons_eq_if_modifyHead, ← ih, splitLines, List.foldr_cons, ← splitLines]
    by_cases feed : character = '\n'
    · simp [feed]
    · simp only [feed, if_false, beq_iff_eq]
      have someLine : splitLines rest ≠ [] := by
        rw [ih]
        exact List.splitOn_ne_nil _ _
      cases lines : splitLines rest with
      | nil => exact absurd lines someLine
      | cons line others => rfl

/-- Lines with a line feed between them are split again. -/
theorem splitLines_intercalate {lines : List (List Char)} (noFeed : ∀ line ∈ lines, '\n' ∉ line)
    (someLine : lines ≠ []) : splitLines (['\n'].intercalate lines) = lines := by
  rw [splitLines_eq_splitOn, List.splitOn_intercalate '\n' noFeed someLine]

theorem splitLines_append (front back : List Char) :
    splitLines (front ++ '\n' :: back) = splitLines front ++ splitLines back := by
  rw [splitLines_eq_splitOn, List.splitOn_append_cons_self, ← splitLines_eq_splitOn,
    ← splitLines_eq_splitOn]

theorem withoutReturn_eq_self {line : List Char} (noReturn : '\r' ∉ line) :
    withoutReturn line = line := by
  rw [withoutReturn, if_neg]
  intro last
  exact noReturn (List.mem_of_getLast? last)

end Breadboard
