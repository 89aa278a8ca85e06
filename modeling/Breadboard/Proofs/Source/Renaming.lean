import Breadboard.Proofs.Source.Twins

/-!
# Renaming the labels of a text

The labels of a source text are renamed where they are written: in the lines that declare them
and behind the mnemonics of jumps. Comments, separators and every other word stay as they are
(`renameLabels`), although a longer or shorter name moves everything behind it. Line by line, the
new text says what the old one says under the new names (`exists_readSource_renameLabels`).
-/

namespace Breadboard

/-- The line with other words in front of its comment: `first` says what becomes of the first
word, and `rest` what becomes of the others. -/
def mapWords (first rest : List Char → List Char) : List Char → List Char
  | [] => []
  | character :: following =>
    if startsComment character then character :: following
    else if isWordCharacter character then
      first (character :: following.takeWhile isWordCharacter) ++
        mapWords rest rest (following.dropWhile isWordCharacter)
    else character :: mapWords first rest following
termination_by line => line.length
decreasing_by
  · have := length_dropWhile_le isWordCharacter following
    simp only [List.length_cons]
    omega
  · simp

/-- The word is the mnemonic of a jump. -/
def Word.isJump (word : Word) : Bool :=
  match Mnemonic.ofText? word.text with
  | some (.jump _) => true
  | _ => false

/-- A jump operand with its label renamed, if it is a name and not a number. -/
def renameTarget (rename : List Char → List Char) (word : List Char) : List Char :=
  if isIdentifier word then rename word else word

/-- The line with the label that it declares, or the label that it jumps to, renamed. -/
def renameLine (rename : List Char → List Char) (line : List Char) : List Char :=
  match Content.ofTokens (tokenize 0 line) with
  | .ok (.label _) => mapWords rename rename line
  | .ok (.instruction head _) =>
    if head.isJump then mapWords id (renameTarget rename) line else line
  | .ok .blank | .error _ => line

/-- **The text with its labels renamed.** -/
def renameLabels (rename : List Char → List Char) (source : String) : String :=
  String.ofList (['\n'].intercalate ((splitLines source.toList).map (renameLine rename)))

/-- The tokens with other words, at the old places. -/
def exchangeWords (first rest : List Char → List Char) : List Token → List Token
  | [] => []
  | .colon place :: tokens => .colon place :: exchangeWords first rest tokens
  | .word place word :: tokens => .word place (first word) :: exchangeWords rest rest tokens

section

variable {first rest : List Char → List Char}

/-- What is no part of a word stays in front of the words. -/
theorem head?_mapWords {line : List Char}
    (ends : ∀ character ∈ line.head?, isWordCharacter character = false) :
    (mapWords first rest line).head? = line.head? := by
  cases line with
  | nil => rw [mapWords]
  | cons character following =>
    rw [mapWords, ends character rfl]
    split <;> rfl

/-- **A line with other words spells the tokens with these words**, if they can be read as
words. -/
theorem spells_mapWords (place : Nat) (line : List Char) :
    ∀ first, (∀ start word, .word start word ∈ exchangeWords first rest (tokenize place line) →
        IsWord word) →
      Spells (mapWords first rest line)
        ((exchangeWords first rest (tokenize place line)).map Token.mark) := by
  fun_induction tokenize place line with
  | case1 =>
    intro first words
    rw [mapWords]
    exact .nothing
  | case2 place character following comment =>
    intro first words
    rw [mapWords, if_pos comment]
    exact .comment comment following
  | case3 place character following noComment separator ih =>
    intro first words
    have noWord : ¬isWordCharacter character = true := by
      simp [isWordCharacter_of_isSeparator separator]
    rw [mapWords, if_neg noComment, if_neg noWord]
    exact .separator separator (ih first words)
  | case4 place following noComment noSeparator ih =>
    intro first words
    rw [mapWords, if_neg noComment, if_neg (by decide)]
    refine .colon (ih first fun start word member => words start word ?_)
    exact List.mem_cons_of_mem _ member
  | case5 place character following noComment noSeparator noColon word ih =>
    intro first words
    rw [mapWords, if_neg noComment, if_pos (isWordCharacter_of_not noComment noSeparator noColon)]
    refine .word (words place _ List.mem_cons_self) ?_ (ih rest fun start other member => ?_)
    · rw [head?_mapWords (head?_dropWhile_isWordCharacter following)]
      exact head?_dropWhile_isWordCharacter following
    · exact words start other (List.mem_cons_of_mem _ member)

/-- No other character comes in than those of the new words. -/
theorem not_mem_mapWords {character : Char} (noWord : isWordCharacter character = false)
    (place : Nat) (line : List Char) (absent : character ∉ line) :
    ∀ first, (∀ start word, .word start word ∈ exchangeWords first rest (tokenize place line) →
        IsWord word) → character ∉ mapWords first rest line := by
  revert absent
  fun_induction tokenize place line with
  | case1 =>
    intro absent first words
    rw [mapWords]
    exact absent
  | case2 place comment following starts =>
    intro absent first words
    rw [mapWords, if_pos starts]
    exact absent
  | case3 place separator following noComment separates ih =>
    intro absent first words
    have outside : ¬isWordCharacter separator = true := by
      simp [isWordCharacter_of_isSeparator separates]
    rw [List.mem_cons, not_or] at absent
    rw [mapWords, if_neg noComment, if_neg outside, List.mem_cons, not_or]
    exact ⟨absent.1, ih absent.2 first words⟩
  | case4 place following noComment noSeparator ih =>
    intro absent first words
    rw [List.mem_cons, not_or] at absent
    rw [mapWords, if_neg noComment, if_neg (by decide), List.mem_cons, not_or]
    refine ⟨absent.1, ih absent.2 first fun start word member => words start word ?_⟩
    exact List.mem_cons_of_mem _ member
  | case5 place begin following noComment noSeparator noColon word ih =>
    intro absent first words
    rw [mapWords, if_neg noComment, if_pos (isWordCharacter_of_not noComment noSeparator noColon),
      List.mem_append, not_or]
    constructor
    · intro inWord
      have isWord := (words place _ List.mem_cons_self).2 character inWord
      rw [noWord] at isWord
      cases isWord
    · have behind : character ∉ following.dropWhile isWordCharacter := fun member =>
        absent (List.mem_cons_of_mem _ ((List.dropWhile_sublist _).subset member))
      exact ih behind rest fun start other member =>
        words start other (List.mem_cons_of_mem _ member)

end

/-- The other text are the capitals of changed characters, the capitals of which are this text. -/
def Becomes (change : List Char → List Char) (text other : String) : Prop :=
  ∃ characters, text = String.ofList (capitals characters) ∧
    other = String.ofList (capitals (change characters))

/-- The other line says the same under the new names of the labels. -/
inductive Content.Renamed (rename : List Char → List Char) : Content → Content → Prop where
  | blank : Renamed rename .blank .blank
  | label {name other : Word} (becomes : Becomes rename name.text other.text) :
      Renamed rename (.label name) (.label other)
  | jump {head otherHead : Word} {operands others : List Word} (jump : head.isJump)
      (named : head.text = otherHead.text)
      (become : List.Forall₂ (Becomes (renameTarget rename)) (operands.map (·.text))
        (others.map (·.text))) :
      Renamed rename (.instruction head operands) (.instruction otherHead others)
  | instruction {head otherHead : Word} {operands others : List Word} (noJump : ¬head.isJump)
      (texts : (head :: operands).map (·.text) = (otherHead :: others).map (·.text)) :
      Renamed rename (.instruction head operands) (.instruction otherHead others)

/-- The names in a line that are renamed: the label that it declares, and the labels that it
jumps to. -/
inductive Content.Mentions : Content → String → Prop where
  | label (name : Word) : Mentions (.label name) name.text
  | target {head target : Word} {operands : List Word} (jump : head.isJump)
      (operand : target ∈ operands) (name : isIdentifier target.text.toList) :
      Mentions (.instruction head operands) target.text

theorem Word.isJump_eq_of_text {word other : Word} (text : word.text = other.text) :
    word.isJump = other.isJump := by
  unfold isJump
  rw [text]

/-- What is renamed is known by the texts on both sides. -/
theorem Content.Renamed.of_alike {rename : List Char → List Char}
    {first content other again : Content} (renamed : content.Renamed rename other)
    (same : first.Alike content) (alike : other.Alike again) : first.Renamed rename again := by
  cases renamed with
  | blank =>
    cases same
    cases alike
    exact .blank
  | label becomes =>
    cases same with
    | label text =>
      cases alike with
      | label otherText =>
        rw [← text, otherText] at becomes
        exact .label becomes
  | jump jump named become =>
    cases same with
    | instruction texts =>
      cases alike with
      | instruction otherTexts =>
        obtain ⟨head, operands⟩ := List.cons.inj texts
        obtain ⟨otherHead, others⟩ := List.cons.inj otherTexts
        rw [← operands, others] at become
        exact .jump ((Word.isJump_eq_of_text head).trans jump)
          ((head.trans named).trans otherHead) become
  | instruction noJump texts =>
    cases same with
    | instruction before =>
      cases alike with
      | instruction behind =>
        refine .instruction ?_ ((before.trans texts).trans behind)
        rw [Word.isJump_eq_of_text (List.cons.inj before).1]
        exact noJump

/-- Words without a colon stay words without a colon. -/
theorem exists_wordsBeforeColon_exchangeWords (change : List Char → List Char) {tokens : List Token}
    {words : List Word} (read : Content.wordsBeforeColon tokens = (words, none)) :
    ∃ others, Content.wordsBeforeColon (exchangeWords change change tokens) = (others, none) ∧
      List.Forall₂ (Becomes change) (words.map (·.text)) (others.map (·.text)) := by
  induction tokens generalizing words with
  | nil =>
    cases read
    exact ⟨[], rfl, .nil⟩
  | cons token tokens ih =>
    cases token with
    | colon place => cases read
    | word place characters =>
      rw [Content.wordsBeforeColon] at read
      obtain ⟨rfl, noColon⟩ := Prod.mk.inj read
      obtain ⟨others, again, become⟩ := ih (Prod.ext rfl noColon)
      refine ⟨Word.ofCharacters place (change characters) :: others, ?_, .cons ?_ become⟩
      · rw [exchangeWords, Content.wordsBeforeColon, again]
      · exact ⟨characters, rfl, rfl⟩

theorem exists_of_mem_exchangeWords {change : List Char → List Char} {tokens : List Token}
    {start : Nat} {word : List Char}
    (member : .word start word ∈ exchangeWords change change tokens) :
    ∃ characters, .word start characters ∈ tokens ∧ word = change characters := by
  induction tokens with
  | nil => cases member
  | cons token tokens ih =>
    cases token with
    | colon place =>
      rcases List.mem_cons.mp member with same | later
      · cases same
      · obtain ⟨characters, inside, changed⟩ := ih later
        exact ⟨characters, List.mem_cons_of_mem _ inside, changed⟩
    | word place characters =>
      rcases List.mem_cons.mp member with same | later
      · cases same
        exact ⟨characters, List.mem_cons_self, rfl⟩
      · obtain ⟨characters, inside, changed⟩ := ih later
        exact ⟨characters, List.mem_cons_of_mem _ inside, changed⟩

/-- Tokens without a colon among them are the words that are read. -/
theorem mem_of_wordsBeforeColon {tokens : List Token} {words : List Word}
    (read : Content.wordsBeforeColon tokens = (words, none)) {start : Nat} {characters : List Char}
    (member : .word start characters ∈ tokens) : Word.ofCharacters start characters ∈ words := by
  induction tokens generalizing words with
  | nil => cases member
  | cons token tokens ih =>
    cases token with
    | colon place => cases read
    | word place first =>
      rw [Content.wordsBeforeColon] at read
      obtain ⟨rfl, noColon⟩ := Prod.mk.inj read
      rcases List.mem_cons.mp member with same | later
      · cases same
        exact List.mem_cons_self
      · exact List.mem_cons_of_mem _ (ih (Prod.ext rfl noColon) later)

/-- What is scanned as a word is a word. -/
theorem isWord_of_mem_tokenize {place start : Nat} {line word : List Char}
    (member : .word start word ∈ tokenize place line) : IsWord word := by
  fun_induction tokenize place line with
  | case1 | case2 => cases member
  | case3 place character following noComment separator ih => exact ih member
  | case4 place following noComment noSeparator ih =>
    rcases List.mem_cons.mp member with same | later
    · cases same
    · exact ih later
  | case5 place character following noComment noSeparator noColon first ih =>
    rcases List.mem_cons.mp member with same | later
    · obtain ⟨_, rfl⟩ := Token.word.inj same
      exact isWord_cons_takeWhile following
        (isWordCharacter_of_not noComment noSeparator noColon)
    · exact ih later

namespace Content

section

variable {tokens : List Token}

/-- A line that declares a label has two tokens. -/
theorem exists_tokens_of_label {name : Word} (read : ofTokens tokens = .ok (.label name)) :
    ∃ start characters colon, tokens = [.word start characters, .colon colon] ∧
      isIdentifier characters ∧ name = .ofCharacters start characters := by
  unfold ofTokens at read
  cases declared : declaredLabel? tokens with
  | some found =>
    rw [declared] at read
    cases read
    unfold declaredLabel? at declared
    split at declared
    next start characters colon =>
      split at declared
      next identifier =>
        cases declared
        exact ⟨start, characters, colon, rfl, identifier, rfl⟩
      next => cases declared
    next => cases declared
  | none =>
    rw [declared] at read
    simp only at read
    split at read
    · cases read
    · cases read
    · split at read <;> cases read

/-- The tokens of an instruction line are words, the mnemonic in front. -/
theorem exists_tokens_of_instruction {head : Word} {operands : List Word}
    (read : ofTokens tokens = .ok (.instruction head operands)) :
    ∃ start characters rest, tokens = .word start characters :: rest ∧
      head = .ofCharacters start characters ∧ wordsBeforeColon rest = (operands, none) := by
  unfold ofTokens at read
  cases declared : declaredLabel? tokens with
  | some found =>
    rw [declared] at read
    cases read
  | none =>
    rw [declared] at read
    simp only at read
    split at read
    next => cases read
    next first others words =>
      cases read
      cases tokens with
      | nil => cases words
      | cons token rest =>
        cases token with
        | colon => cases words
        | word start characters =>
          rw [wordsBeforeColon] at words
          obtain ⟨same, noColon⟩ := Prod.mk.inj words
          obtain ⟨rfl, rfl⟩ := List.cons.inj same
          exact ⟨start, characters, rest, rfl, rfl, Prod.ext rfl noColon⟩
    next => split at read <;> cases read

/-- Words without a colon are an instruction. -/
theorem ofTokens_of_words {start : Nat} {characters : List Char} {words : List Word}
    (read : wordsBeforeColon tokens = (words, none)) :
    ofTokens (.word start characters :: tokens) =
      .ok (.instruction (.ofCharacters start characters) words) := by
  have noLabel : declaredLabel? (.word start characters :: tokens) = none := by
    cases tokens with
    | nil => rfl
    | cons token rest =>
      cases token with
      | colon => cases read
      | word => rfl
  rw [ofTokens, noLabel, wordsBeforeColon, read]

end

end Content

/-- **The renamed line spells what it says under the new names**, in one line. -/
theorem exists_spells_renameLine {rename : List Char → List Char} {line : List Char}
    {content : Content} (read : Content.ofTokens (tokenize 0 line) = .ok content)
    (names : ∀ characters, content.Mentions (String.ofList (capitals characters)) →
      isIdentifier (rename characters)) :
    (∃ tokens other, Spells (renameLine rename line) (tokens.map Token.mark) ∧
      Content.ofTokens tokens = .ok other ∧ content.Renamed rename other) ∧
    ('\n' ∉ line → '\n' ∉ renameLine rename line) := by
  rw [renameLine, read]
  cases content with
  | blank => exact ⟨⟨_, _, spells_tokenize 0 line, read, .blank⟩, id⟩
  | label name =>
    obtain ⟨start, characters, colon, tokens, _, rfl⟩ := Content.exists_tokens_of_label read
    have identifier := names characters (.label (.ofCharacters start characters))
    have words : ∀ place word,
        .word place word ∈ exchangeWords rename rename (tokenize 0 line) → IsWord word := by
      rw [tokens]
      intro place word member
      rcases List.mem_cons.mp member with same | later
      · cases same
        exact isWord_of_isIdentifier identifier
      · cases List.mem_singleton.mp later
    refine ⟨⟨_, .label (.ofCharacters start (rename characters)),
      spells_mapWords 0 line rename words, ?_, .label ⟨characters, rfl, rfl⟩⟩,
      fun oneLine => not_mem_mapWords rfl 0 line oneLine rename words⟩
    rw [tokens, exchangeWords, exchangeWords, exchangeWords, Content.ofTokens,
      Content.declaredLabel?, if_pos identifier]
  | instruction head operands =>
    by_cases jump : head.isJump = true
    · obtain ⟨start, characters, rest, tokens, rfl, operandTokens⟩ :=
        Content.exists_tokens_of_instruction read
      obtain ⟨others, again, become⟩ :=
        exists_wordsBeforeColon_exchangeWords (renameTarget rename) operandTokens
      have words : ∀ place word,
          .word place word ∈ exchangeWords id (renameTarget rename) (tokenize 0 line) →
            IsWord word := by
        intro place word member
        rw [tokens, exchangeWords] at member
        rcases List.mem_cons.mp member with same | later
        · obtain ⟨_, rfl⟩ := Token.word.inj same
          exact isWord_of_mem_tokenize (tokens ▸ List.mem_cons_self)
        · obtain ⟨target, inside, rfl⟩ := exists_of_mem_exchangeWords later
          unfold renameTarget
          by_cases name : isIdentifier target = true
          · rw [if_pos name]
            apply isWord_of_isIdentifier
            apply names target
            apply Content.Mentions.target jump (mem_of_wordsBeforeColon operandTokens inside)
            rw [Word.text_ofCharacters, String.toList_ofList, isIdentifier_capitals]
            exact name
          · rw [if_neg name]
            exact isWord_of_mem_tokenize (tokens ▸ List.mem_cons_of_mem _ inside)
      simp only [if_pos jump]
      refine ⟨⟨_, .instruction (.ofCharacters start characters) others,
        spells_mapWords 0 line id words, ?_, .jump jump rfl become⟩,
        fun oneLine => not_mem_mapWords rfl 0 line oneLine id words⟩
      rw [tokens, exchangeWords]
      exact Content.ofTokens_of_words again
    · simp only [if_neg jump]
      exact ⟨⟨_, _, spells_tokenize 0 line, read, .instruction jump rfl⟩, id⟩

/-- Reading tokens that have the same marks, wherever they stand. -/
theorem Line.exists_ofRaw_of_spells {line : List Char} {tokens : List Token} {content : Content}
    (spelled : Spells line (tokens.map Token.mark)) (read : Content.ofTokens tokens = .ok content)
    (number start : Nat) :
    ∃ other, ofRaw ⟨number, start, withoutReturn line⟩ =
      .ok ⟨⟨number, start, withoutReturn line⟩, other⟩ ∧ content.Alike other := by
  have same := (RawLine.marks_eq_iff number start line _).mpr spelled
  have agree := Content.ofTokens_of_marks same.symm
  rw [read] at agree
  rw [ofRaw]
  generalize Content.ofTokens (tokenize _ _) = reading at agree ⊢
  cases agree with
  | ok alike => exact ⟨_, rfl, alike⟩

/-- What a line mentions depends on its texts. -/
theorem Content.Mentions.of_alike {content other : Content} {name : String}
    (mentions : other.Mentions name) (alike : content.Alike other) : content.Mentions name := by
  cases alike with
  | blank => cases mentions
  | label text =>
    cases mentions with
    | label =>
      rw [← text]
      exact .label _
  | instruction texts =>
    cases mentions with
    | target jump operand isName =>
      obtain ⟨named, operands⟩ := List.cons.inj texts
      have member := List.mem_map_of_mem (f := (·.text)) operand
      rw [← operands] at member
      obtain ⟨target, inside, text⟩ := List.mem_map.mp member
      rw [← text] at isName ⊢
      exact .target ((Word.isJump_eq_of_text named).trans jump) inside isName

/-- **Reading a renamed line.** -/
theorem Line.exists_ofRaw_renameLine {rename : List Char → List Char} {text : List Char}
    {number start : Nat} {line : Line}
    (read : ofRaw ⟨number, start, withoutReturn text⟩ = .ok line)
    (names : ∀ characters, line.content.Mentions (String.ofList (capitals characters)) →
      isIdentifier (rename characters)) (otherStart : Nat) :
    (∃ other, ofRaw ⟨number, otherStart, withoutReturn (renameLine rename text)⟩ = .ok other ∧
      line.raw.number = other.raw.number ∧ line.content.Renamed rename other.content) ∧
    ('\n' ∉ text → '\n' ∉ renameLine rename text) := by
  -- The places of the old text do not matter, so the line is read at place zero instead.
  have sameMarks := (RawLine.marks_eq_iff number start text _).mpr (spells_tokenize 0 text)
  have agree := Content.ofTokens_of_marks sameMarks
  rw [ofRaw] at read
  generalize Content.ofTokens (tokenize start _) = reading at agree read
  cases reading with
  | error failure => cases read
  | ok content =>
    cases read
    generalize atZero : Content.ofTokens (tokenize 0 text) = reading at agree
    cases agree with
    | @ok _ there alike =>
      obtain ⟨⟨tokens, renamed, spelled, again, becomes⟩, oneLine⟩ :=
        exists_spells_renameLine atZero
          fun characters mentions => names characters (mentions.of_alike alike)
      obtain ⟨other, readAgain, same⟩ :=
        exists_ofRaw_of_spells spelled again number otherStart
      exact ⟨⟨_, readAgain, rfl, becomes.of_alike alike same⟩, oneLine⟩

/-- Two lines with the same number, the second of which says the same under the new names. -/
structure Line.Renamed (rename : List Char → List Char) (line other : Line) : Prop where
  number : line.raw.number = other.raw.number
  content : line.content.Renamed rename other.content

/-- No line reaches over a line feed. -/
theorem not_mem_of_mem_splitLines (text : List Char) : ∀ line ∈ splitLines text, '\n' ∉ line := by
  induction text with
  | nil => simp [splitLines]
  | cons character rest ih =>
    rw [splitLines, List.foldr_cons, ← splitLines]
    by_cases feed : character = '\n'
    · rw [if_pos feed, List.forall_mem_cons]
      exact ⟨List.not_mem_nil, ih⟩
    · rw [if_neg feed]
      have apart : '\n' ≠ character := fun same => feed same.symm
      cases lines : splitLines rest with
      | nil => simpa using apart
      | cons line others =>
        rw [lines, List.forall_mem_cons] at ih
        rw [List.forall_mem_cons, List.mem_cons, not_or]
        exact ⟨⟨apart, ih.1⟩, ih.2⟩

theorem exists_mapM_ofRaw_renameLine {rename : List Char → List Char} {texts : List (List Char)}
    {number start : Nat} {lines : List Line}
    (read : List.Forall₂ (fun raw line => Line.ofRaw raw = .ok line)
      (placeLines number start texts) lines)
    (names : ∀ line ∈ lines, ∀ characters,
      line.content.Mentions (String.ofList (capitals characters)) →
        isIdentifier (rename characters)) (otherStart : Nat) :
    (∃ others, (placeLines number otherStart (texts.map (renameLine rename))).mapM Line.ofRaw =
      .ok others ∧ List.Forall₂ (Line.Renamed rename) lines others) ∧
    ((∀ text ∈ texts, '\n' ∉ text) → ∀ text ∈ texts.map (renameLine rename), '\n' ∉ text) := by
  induction texts generalizing number start otherStart lines with
  | nil =>
    cases read
    exact ⟨⟨[], rfl, .nil⟩, id⟩
  | cons text texts ih =>
    cases read with
    | @cons _ line _ rest first others =>
    rw [List.forall_mem_cons] at names
    obtain ⟨⟨other, again, number, renamed⟩, oneLine⟩ :=
      Line.exists_ofRaw_renameLine first names.1 otherStart
    obtain ⟨⟨othersAgain, restAgain, restRenamed⟩, restLines⟩ := ih others names.2
      (otherStart + utf8Length (renameLine rename text) + 1)
    refine ⟨⟨other :: othersAgain, ?_, .cons ⟨number, renamed⟩ restRenamed⟩, ?_⟩
    · rw [List.map_cons, placeLines, List.mapM_cons, again, restAgain]
      rfl
    · rw [List.map_cons, List.forall_mem_cons, List.forall_mem_cons]
      exact fun lines => ⟨oneLine lines.1, restLines lines.2⟩

/-- **A text with renamed labels says the same under the new names**, line by line, if these can
be read as names. -/
theorem exists_readSource_renameLabels {rename : List Char → List Char} {source : String}
    {lines : List Line} (read : readSource source = .ok lines)
    (names : ∀ line ∈ lines, ∀ characters,
      line.content.Mentions (String.ofList (capitals characters)) →
        isIdentifier (rename characters)) :
    ∃ others, readSource (renameLabels rename source) = .ok others ∧
      List.Forall₂ (Line.Renamed rename) lines others := by
  obtain ⟨⟨others, again, renamed⟩, oneLine⟩ :=
    exists_mapM_ofRaw_renameLine (forall₂_of_mapM_eq_ok read) names 0
  have someLine : (splitLines source.toList).map (renameLine rename) ≠ [] := by
    rw [ne_eq, List.map_eq_nil_iff, splitLines_eq_splitOn]
    exact List.splitOn_ne_nil _ _
  refine ⟨others, ?_, renamed⟩
  rw [readSource, renameLabels, String.toList_ofList,
    splitLines_intercalate (oneLine (not_mem_of_mem_splitLines _)) someLine, again]

end Breadboard
