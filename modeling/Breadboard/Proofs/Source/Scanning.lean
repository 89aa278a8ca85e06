import Breadboard.Proofs.Source.Words

/-!
# The words of a line

Read as a text, a line is what stands in front of its comment, cut into words at every run of
separators. The tokens of the line say the same: the words in front of the first colon are
the pieces that the line is cut into (`wordsBeforeColon_tokenize`), and a first token is
preceded by separators only (`exists_split_of_tokenize_eq_cons`).
-/

namespace Breadboard

/-- What stands in front of the comment. -/
def codeOf (characters : List Char) : List Char :=
  characters.takeWhile fun character => !startsComment character

/-- The pieces between separators. -/
def wordsOf (characters : List Char) : List (List Char) :=
  (characters.splitOnP isSeparator).filter (· ≠ [])

/-- The words in front of the comment and of the first colon. -/
def leadingWords (characters : List Char) : List (List Char) :=
  wordsOf ((codeOf characters).takeWhile (· != ':'))

/-- Words as they are kept: in capitals. -/
def inCapitals (words : List (List Char)) : List String :=
  words.map fun word => String.ofList (capitals word)

section

variable {character : Char} {characters rest word : List Char}

theorem codeOf_cons (code : startsComment character = false) :
    codeOf (character :: rest) = character :: codeOf rest := by
  unfold codeOf
  rw [List.takeWhile_cons_of_pos (by rw [code]; rfl)]

theorem codeOf_cons_of_startsComment (comment : startsComment character = true) :
    codeOf (character :: rest) = [] := by
  unfold codeOf
  rw [List.takeWhile_cons_of_neg (by rw [comment]; exact Bool.false_ne_true)]

/-- Characters of a word belong to the code. -/
theorem codeOf_append (allWord : ∀ character ∈ word, isWordCharacter character) :
    codeOf (word ++ rest) = word ++ codeOf rest := by
  apply List.takeWhile_append_of_pos
  intro character member
  obtain ⟨_, noComment, _⟩ := (isWordCharacter_iff character).mp (allWord character member)
  rw [noComment]
  rfl

theorem wordsOf_cons_of_isSeparator (separator : isSeparator character = true) :
    wordsOf (character :: rest) = wordsOf rest := by
  unfold wordsOf
  rw [List.splitOnP_cons_eq_if_modifyHead, if_pos separator]
  rfl

/-- A word reaches up to the first separator. -/
theorem wordsOf_append (someCharacter : word ≠ [])
    (noSeparator : ∀ character ∈ word, isSeparator character = false)
    (ends : ∀ character ∈ rest.head?, isSeparator character = true) :
    wordsOf (word ++ rest) = word :: wordsOf rest := by
  cases rest with
  | nil =>
    rw [List.append_nil, wordsOf, List.splitOnP_eq_singleton noSeparator]
    exact List.filter_cons_of_pos (decide_eq_true someCharacter)
  | cons separator rest =>
    have separates := ends separator rfl
    rw [wordsOf_cons_of_isSeparator separates]
    unfold wordsOf
    rw [List.splitOnP_append_cons_of_forall_mem noSeparator _ separates]
    exact List.filter_cons_of_pos (decide_eq_true someCharacter)

theorem leadingWords_nil : leadingWords [] = [] := by
  rw [leadingWords, codeOf, List.takeWhile_nil, List.takeWhile_nil, wordsOf, List.splitOnP_nil]
  rfl

theorem leadingWords_of_startsComment (comment : startsComment character = true) :
    leadingWords (character :: rest) = [] := by
  rw [← leadingWords_nil, leadingWords, codeOf_cons_of_startsComment comment]
  rfl

theorem leadingWords_of_isSeparator (code : startsComment character = false)
    (separator : isSeparator character = true) :
    leadingWords (character :: rest) = leadingWords rest := by
  have noColon : (character != ':') = true := by
    rw [bne_iff_ne]
    rintro rfl
    cases separator
  rw [leadingWords, codeOf_cons code,
    List.takeWhile_cons_of_pos (p := (· != ':')) noColon, wordsOf_cons_of_isSeparator separator,
    leadingWords]

theorem leadingWords_of_colon : leadingWords (':' :: rest) = [] := by
  rw [← leadingWords_nil, leadingWords, codeOf_cons rfl]
  rfl

/-- A word is the first one of the line, up to a character that belongs to no word. -/
theorem leadingWords_append (isWord : IsWord word)
    (ends : ∀ character ∈ rest.head?, isWordCharacter character = false) :
    leadingWords (word ++ rest) = word :: leadingWords rest := by
  obtain ⟨someCharacter, allWord⟩ := isWord
  have noSeparator : ∀ character ∈ word, isSeparator character = false := fun character member =>
    ((isWordCharacter_iff character).mp (allWord character member)).1
  have noColon : ∀ character ∈ word, (character != ':') = true := fun character member =>
    bne_iff_ne.mpr ((isWordCharacter_iff character).mp (allWord character member)).2.2
  unfold leadingWords
  rw [codeOf_append allWord, List.takeWhile_append_of_pos noColon]
  apply wordsOf_append someCharacter noSeparator
  intro character first
  cases rest with
  | nil => cases first
  | cons following rest =>
    -- What ends a word without starting a comment and without being a colon, separates.
    have notWord := ends following rfl
    unfold codeOf at first
    by_cases comment : startsComment following = true
    · rw [List.takeWhile_cons_of_neg (by rw [comment]; exact Bool.false_ne_true)] at first
      cases first
    · rw [List.takeWhile_cons_of_pos (by simpa using comment)] at first
      by_cases colon : following = ':'
      · rw [List.takeWhile_cons_of_neg (by simpa using colon)] at first
        cases first
      · rw [List.takeWhile_cons_of_pos (by simpa using colon), List.head?_cons,
          Option.mem_some_iff] at first
        subst first
        cases separates : isSeparator following with
        | true => rfl
        | false =>
          have isWord := (isWordCharacter_iff following).mpr
            ⟨separates, by simpa using comment, colon⟩
          rw [notWord] at isWord
          cases isWord

end

/-- A word at the front of a line is whole if it is taken as far as it goes. -/
theorem isWord_cons_takeWhile {first : Char} (rest : List Char)
    (starts : isWordCharacter first = true) :
    IsWord (first :: rest.takeWhile isWordCharacter) := by
  refine ⟨List.cons_ne_nil _ _, ?_⟩
  rw [List.forall_mem_cons]
  exact ⟨starts, List.all_eq_true.mp List.all_takeWhile⟩

theorem cons_eq_word_append (first : Char) (rest : List Char) :
    first :: rest = (first :: rest.takeWhile isWordCharacter) ++ rest.dropWhile isWordCharacter :=
  congrArg (List.cons first) List.takeWhile_append_dropWhile.symm

theorem head?_dropWhile_isWordCharacter (rest : List Char) :
    ∀ character ∈ (rest.dropWhile isWordCharacter).head?, isWordCharacter character = false := by
  intro character first
  have ends := List.head?_dropWhile_not isWordCharacter rest
  rw [first] at ends
  exact ends

/-- At a character that starts a word, the words go on behind that word. -/
theorem leadingWords_cons_of_isWordCharacter {first : Char} (rest : List Char)
    (starts : isWordCharacter first = true) :
    leadingWords (first :: rest) =
      (first :: rest.takeWhile isWordCharacter) ::
        leadingWords (rest.dropWhile isWordCharacter) := by
  rw [cons_eq_word_append first rest]
  exact leadingWords_append (isWord_cons_takeWhile rest starts)
    (head?_dropWhile_isWordCharacter rest)

theorem isWordCharacter_of_not {character : Char} (noComment : ¬startsComment character = true)
    (noSeparator : ¬isSeparator character = true) (noColon : ¬character = ':') :
    isWordCharacter character = true :=
  (isWordCharacter_iff character).mpr
    ⟨by simpa using noSeparator, by simpa using noComment, noColon⟩

/-- The words of a line can be read as words. -/
theorem isWord_of_mem_leadingWords (characters : List Char) :
    ∀ word ∈ leadingWords characters, IsWord word := by
  -- The place does not matter; the cases are those of the scan.
  induction 0, characters using tokenize.induct with
  | case1 =>
    rw [leadingWords_nil]
    nofun
  | case2 place character rest comment =>
    rw [leadingWords_of_startsComment comment]
    nofun
  | case3 place character rest noComment separator ih =>
    rw [leadingWords_of_isSeparator (by simpa using noComment) separator]
    exact ih
  | case4 place rest =>
    rw [leadingWords_of_colon]
    nofun
  | case5 place character rest noComment noSeparator noColon word ih =>
    have starts := isWordCharacter_of_not noComment noSeparator noColon
    rw [leadingWords_cons_of_isWordCharacter rest starts, List.forall_mem_cons]
    exact ⟨isWord_cons_takeWhile rest starts, ih⟩

/-- **The words in front of the first colon are read as they stand.** -/
theorem wordsBeforeColon_tokenize (place : Nat) (characters : List Char) :
    (Content.wordsBeforeColon (tokenize place characters)).1.map (·.text) =
      inCapitals (leadingWords characters) := by
  fun_induction tokenize place characters with
  | case1 =>
    rw [leadingWords_nil]
    rfl
  | case2 place character rest comment =>
    rw [leadingWords_of_startsComment comment]
    rfl
  | case3 place character rest noComment separator ih =>
    rw [ih, leadingWords_of_isSeparator (by simpa using noComment) separator]
  | case4 place rest =>
    rw [leadingWords_of_colon]
    rfl
  | case5 place character rest noComment noSeparator noColon word ih =>
    have starts := isWordCharacter_of_not noComment noSeparator noColon
    rw [leadingWords_cons_of_isWordCharacter rest starts, Content.wordsBeforeColon, List.map_cons,
      ih]
    rfl

/-- A colon is read exactly if one stands in front of the comment. -/
theorem isSome_wordsBeforeColon_tokenize_iff (place : Nat) (characters : List Char) :
    (Content.wordsBeforeColon (tokenize place characters)).2.isSome ↔
      ':' ∈ codeOf characters := by
  fun_induction tokenize place characters with
  | case1 => simp [Content.wordsBeforeColon, codeOf]
  | case2 place character rest comment =>
    rw [codeOf_cons_of_startsComment comment]
    simp [Content.wordsBeforeColon]
  | case3 place character rest noComment separator ih =>
    have noColon : ':' ≠ character := by
      rintro rfl
      cases separator
    rw [ih, codeOf_cons (by simpa using noComment), List.mem_cons, or_iff_right noColon]
  | case4 place rest =>
    rw [codeOf_cons rfl]
    simp [Content.wordsBeforeColon]
  | case5 place character rest noComment noSeparator noColon word ih =>
    have starts := isWordCharacter_of_not noComment noSeparator noColon
    have isWord := isWord_cons_takeWhile rest starts
    have inWord : ':' ∉ word := fun member =>
      absurd rfl ((isWordCharacter_iff ':').mp (isWord.2 ':' member)).2.2
    rw [Content.wordsBeforeColon, ih, cons_eq_word_append character, codeOf_append isWord.2,
      List.mem_append, or_iff_right inWord]

/-- A line without a token has separators only in front of its comment. -/
theorem isSeparator_of_tokenize_eq_nil {place : Nat} {characters : List Char}
    (read : tokenize place characters = []) :
    ∀ character ∈ codeOf characters, isSeparator character = true := by
  fun_induction tokenize place characters with
  | case1 => nofun
  | case2 place character rest comment =>
    rw [codeOf_cons_of_startsComment comment]
    nofun
  | case3 place character rest noComment separator ih =>
    rw [codeOf_cons (by simpa using noComment), List.forall_mem_cons]
    exact ⟨separator, ih read⟩
  | case4 | case5 => cases read

/-- In front of the first token stand separators only, and what follows it is read behind
it. -/
theorem exists_split_of_tokenize_eq_cons {place : Nat} {characters : List Char} {token : Token}
    {tokens : List Token} (read : tokenize place characters = token :: tokens) :
    ∃ before following next, (∀ character ∈ before, isSeparator character = true) ∧
      codeOf characters = before ++ (token.characters ++ codeOf following) ∧
      tokenize next following = tokens := by
  fun_induction tokenize place characters with
  | case1 | case2 => cases read
  | case3 place character rest noComment separator ih =>
    obtain ⟨before, following, next, separators, code, behind⟩ := ih read
    refine ⟨character :: before, following, next, ?_, ?_, behind⟩
    · rw [List.forall_mem_cons]
      exact ⟨separator, separators⟩
    · rw [codeOf_cons (by simpa using noComment), code, List.cons_append]
  | case4 place rest =>
    obtain ⟨rfl, behind⟩ := List.cons.inj read
    exact ⟨[], rest, _, nofun, codeOf_cons rfl, behind⟩
  | case5 place character rest noComment noSeparator noColon word ih =>
    obtain ⟨rfl, behind⟩ := List.cons.inj read
    have starts := isWordCharacter_of_not noComment noSeparator noColon
    refine ⟨[], _, _, nofun, ?_, behind⟩
    rw [cons_eq_word_append character, codeOf_append (isWord_cons_takeWhile rest starts).2]
    rfl

/-- A word ends in front of the comment as well. -/
theorem head?_codeOf_dropWhile (rest : List Char) :
    ∀ character ∈ (codeOf (rest.dropWhile isWordCharacter)).head?,
      isWordCharacter character = false := by
  intro character first
  rw [codeOf, List.head?_takeWhile, Option.mem_def, Option.filter_eq_some_iff] at first
  exact head?_dropWhile_isWordCharacter rest character first.1

/-- The comment of a line is not read. -/
theorem tokenize_codeOf (place : Nat) (characters : List Char) :
    tokenize place (codeOf characters) = tokenize place characters := by
  fun_induction tokenize place characters with
  | case1 =>
    unfold codeOf
    rw [List.takeWhile_nil, tokenize]
  | case2 place character rest comment =>
    rw [codeOf_cons_of_startsComment comment, tokenize]
  | case3 place character rest noComment separator ih =>
    rw [codeOf_cons (by simpa using noComment), tokenize, if_neg noComment, if_pos separator, ih]
  | case4 place rest noComment noSeparator ih =>
    rw [codeOf_cons rfl, tokenize, if_neg noComment, if_neg noSeparator, if_pos rfl, ih]
  | case5 place character rest noComment noSeparator noColon word ih =>
    have starts := isWordCharacter_of_not noComment noSeparator noColon
    have isWord := isWord_cons_takeWhile rest starts
    have ends := takeWhile_eq_nil_of_ends (head?_codeOf_dropWhile rest)
    rw [cons_eq_word_append character, codeOf_append isWord.2,
      tokenize_word_append place isWord ends, ih]

theorem not_startsComment_of_isSeparator {character : Char}
    (separator : isSeparator character = true) : ¬startsComment character = true := by
  unfold isSeparator at separator
  simp only [Bool.or_eq_true, beq_iff_eq] at separator
  rcases separator with (((rfl | rfl) | rfl) | rfl) | rfl <;> decide

/-- Separators are skipped. -/
theorem tokenize_separators_append (place : Nat) {separators : List Char}
    (allSeparate : ∀ character ∈ separators, isSeparator character = true)
    (following : List Char) :
    tokenize place (separators ++ following) =
      tokenize (place + utf8Length separators) following := by
  induction separators generalizing place with
  | nil => rfl
  | cons separator separators ih =>
    rw [List.forall_mem_cons] at allSeparate
    obtain ⟨separates, others⟩ := allSeparate
    rw [List.cons_append, tokenize, if_neg (not_startsComment_of_isSeparator separates),
      if_pos separates, ih _ others, utf8Length_cons, Nat.add_assoc]

end Breadboard
