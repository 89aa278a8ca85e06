import Breadboard.Assembly.OperandReading
import Breadboard.Proofs.Source.Renaming
import Mathlib.Data.String.Basic

/-!
# The places of lines and tokens

A place counts bytes, so it marks out a part of the text only if both of its ends lie between
characters (`Span.slice?`). The places of lines and of tokens are added up from the sizes of
what stands in front of them, and so every line and every token is found again at its place
(`RawLine.slice?_eq_some`, `slice?_of_mem_tokenize`).
-/

namespace Breadboard

theorem utf8Length_eq_utf8Len (characters : List Char) :
    utf8Length characters = String.utf8Len characters := by
  induction characters with
  | nil => rfl
  | cons character characters ih => rw [utf8Length_cons, ih, String.utf8Len_cons, Nat.add_comm]

theorem utf8ByteSize_ofList (characters : List Char) :
    (String.ofList characters).utf8ByteSize = utf8Length characters := by
  rw [String.utf8ByteSize_ofList, utf8Length_eq_utf8Len]

namespace Span

/-- The part of a text that a place marks out, if both of its ends lie between characters. -/
def slice? (span : Span) (source : String) : Option String :=
  let first : String.Pos.Raw := ⟨span.start⟩
  let last : String.Pos.Raw := ⟨span.stop⟩
  if first.isValid source && last.isValid source then some (first.extract source last) else none

theorem isValid_utf8Length (front back : List Char) :
    String.Pos.Raw.isValid (String.ofList (front ++ back)) ⟨utf8Length front⟩ = true := by
  rw [String.Pos.Raw.isValid_eq_true_iff, String.Pos.Raw.isValid_iff_exists_append]
  refine ⟨String.ofList front, String.ofList back, String.ofList_append, ?_⟩
  rw [← utf8ByteSize_ofList]
  rfl

/-- **What a place marks out** is what stands between as many bytes as it begins and ends
behind. -/
theorem slice?_eq_some {source : String} {before marked after : List Char}
    (whole : source.toList = before ++ marked ++ after) :
    slice? ⟨utf8Length before, utf8Length marked⟩ source = some (String.ofList marked) := by
  obtain rfl : source = String.ofList (before ++ marked ++ after) := by
    rw [← whole, String.ofList_toList]
  have first := isValid_utf8Length before (marked ++ after)
  have last := isValid_utf8Length (before ++ marked) after
  have extracted := String.extract_of_valid before marked after
  rw [← List.append_assoc] at first
  rw [utf8Length_append] at last
  rw [← utf8Length_eq_utf8Len, ← utf8Length_eq_utf8Len] at extracted
  unfold slice?
  dsimp only [stop]
  rw [first, last, extracted]
  rfl

end Span

/-- The bytes of some lines and of the line feeds behind them. -/
def linesLength (lines : List (List Char)) : Nat :=
  utf8Length (lines.flatMap fun line => line ++ ['\n'])

theorem linesLength_cons (line : List Char) (lines : List (List Char)) :
    linesLength (line :: lines) = utf8Length line + 1 + linesLength lines := by
  rw [linesLength, List.flatMap_cons, utf8Length_append, utf8Length_append]
  rfl

/-- Every line is placed behind the lines above it. -/
theorem exists_of_getElem?_placeLines {number start index : Nat} {lines : List (List Char)}
    {raw : RawLine} (here : (placeLines number start lines)[index]? = some raw) :
    ∃ line, lines[index]? = some line ∧
      raw = ⟨number + index, start + linesLength (lines.take index), withoutReturn line⟩ := by
  induction lines generalizing number start index with
  | nil => cases here
  | cons line lines ih =>
    cases index with
    | zero =>
      cases here
      exact ⟨line, rfl, rfl⟩
    | succ index =>
      obtain ⟨other, there, rfl⟩ := ih here
      refine ⟨other, there, ?_⟩
      rw [List.take_succ_cons, linesLength_cons]
      congr 1
      · omega
      · omega

/-- A line of a text stands behind the lines above it. -/
theorem exists_intercalate_eq {lines : List (List Char)} {index : Nat} {line : List Char}
    (here : lines[index]? = some line) :
    ∃ front back, ['\n'].intercalate lines = front ++ line ++ back ∧
      utf8Length front = linesLength (lines.take index) := by
  induction lines generalizing index with
  | nil => cases here
  | cons first lines ih =>
    cases index with
    | zero =>
      cases here
      cases lines with
      | nil => exact ⟨[], [], by simp, rfl⟩
      | cons next lines =>
        refine ⟨[], '\n' :: ['\n'].intercalate (next :: lines), ?_, rfl⟩
        rw [List.intercalate_cons_cons]
        simp
    | succ index =>
      obtain ⟨front, back, text, size⟩ := ih here
      cases lines with
      | nil => cases here
      | cons next lines =>
        refine ⟨first ++ '\n' :: front, back, ?_, ?_⟩
        · rw [List.intercalate_cons_cons, text]
          simp
        · have feed : '\n'.utf8Size = 1 := rfl
          rw [List.take_succ_cons, linesLength_cons, ← size, utf8Length_append, utf8Length_cons,
            feed, Nat.add_assoc]

theorem exists_eq_withoutReturn_append (line : List Char) :
    ∃ ending, line = withoutReturn line ++ ending := by
  rw [withoutReturn]
  split
  next ends =>
    refine ⟨['\r'], ?_⟩
    exact (List.dropLast_append_getLast? _ ends).symm
  next => exact ⟨[], (List.append_nil line).symm⟩

/-- **A line stands at its place.** -/
theorem exists_split_of_writtenLines {source : String} {index : Nat} {raw : RawLine}
    (here : (writtenLines source)[index]? = some raw) :
    ∃ front back, source.toList = front ++ raw.characters ++ back ∧
      utf8Length front = raw.start := by
  obtain ⟨line, written, rfl⟩ := exists_of_getElem?_placeLines here
  obtain ⟨front, back, text, size⟩ := exists_intercalate_eq written
  obtain ⟨ending, split⟩ := exists_eq_withoutReturn_append line
  refine ⟨front, ending ++ back, ?_, ?_⟩
  · rw [splitLines_eq_splitOn, List.intercalate_splitOn] at text
    rw [text]
    nth_rewrite 1 [split]
    simp only [List.append_assoc]
  · rw [size, Nat.zero_add]

/-- **A part of a line is found at its place.** -/
theorem RawLine.slice?_eq_some {source : String} {raw : RawLine} {before marked after : List Char}
    (written : raw ∈ writtenLines source)
    (split : raw.characters = before ++ marked ++ after) :
    Span.slice? ⟨raw.start + utf8Length before, utf8Length marked⟩ source =
      some (String.ofList marked) := by
  obtain ⟨index, here⟩ := List.mem_iff_getElem?.mp written
  obtain ⟨front, back, text, size⟩ := exists_split_of_writtenLines here
  have whole : source.toList = (front ++ before) ++ marked ++ (after ++ back) := by
    rw [text, split]
    simp only [List.append_assoc]
  rw [← size, ← utf8Length_append]
  exact Span.slice?_eq_some whole

/-- **A token stands at its place.** -/
theorem exists_split_of_mem_tokenize {place : Nat} {line : List Char} {token : Token}
    (member : token ∈ tokenize place line) :
    ∃ before after, line = before ++ token.characters ++ after ∧
      token.span = ⟨place + utf8Length before, utf8Length token.characters⟩ := by
  fun_induction tokenize place line with
  | case1 | case2 => cases member
  | case3 place character rest noComment separator ih =>
    obtain ⟨before, after, split, span⟩ := ih member
    refine ⟨character :: before, after, ?_, ?_⟩
    · rw [split, List.cons_append, List.cons_append]
    · rw [span, utf8Length_cons, Nat.add_assoc]
  | case4 place rest noComment noSeparator ih =>
    obtain rfl | later := List.mem_cons.mp member
    · exact ⟨[], rest, rfl, rfl⟩
    · obtain ⟨before, after, split, span⟩ := ih later
      refine ⟨':' :: before, after, ?_, ?_⟩
      · rw [split, List.cons_append, List.cons_append]
      · rw [span, utf8Length_cons, Nat.add_assoc]
  | case5 place character rest noComment noSeparator noColon word ih =>
    obtain rfl | later := List.mem_cons.mp member
    · exact ⟨[], _, cons_eq_word_append character rest, rfl⟩
    · obtain ⟨before, after, split, span⟩ := ih later
      refine ⟨word ++ before, after, ?_, ?_⟩
      · rw [cons_eq_word_append character rest, split]
        simp only [word, List.append_assoc]
      · rw [span, utf8Length_append, Nat.add_assoc]

theorem slice?_of_mem_tokenize {source : String} {raw : RawLine} {token : Token}
    (written : raw ∈ writtenLines source) (member : token ∈ tokenize raw.start raw.characters) :
    token.span.slice? source = some (String.ofList token.characters) := by
  obtain ⟨before, after, split, span⟩ := exists_split_of_mem_tokenize member
  rw [span]
  exact RawLine.slice?_eq_some written split

/-- The part of a line that reaches from the start of its first word to the end of its last one.
Only separators surround it, up to the comment. -/
structure Encloses (before marked after first last : List Char) : Prop where
  starts : first <+: marked
  ends : last <:+ marked
  inFront : ∀ character ∈ before, isSeparator character = true
  behind : ∃ rest, codeOf (before ++ marked ++ after) = before ++ marked ++ rest ∧
    ∀ character ∈ rest, isSeparator character = true

/-- The characters from one token to another are enclosed by their places. -/
def Extends (place : Nat) (line : List Char) (first last : Token) : Prop :=
  ∃ before marked after, line = before ++ marked ++ after ∧
    Encloses before marked after first.characters last.characters ∧
    first.span.start = place + utf8Length before ∧
    last.span.stop = place + utf8Length before + utf8Length marked

/-- A token at the front of a line, and the other tokens of the line behind it. -/
theorem extends_append {place : Nat} (token : Token) {rest : List Char}
    (span : token.span = ⟨place, utf8Length token.characters⟩)
    (code : codeOf (token.characters ++ rest) = token.characters ++ codeOf rest)
    {tokens : List Token} {last : Token} (ends : (token :: tokens).getLast? = some last)
    (behind : tokenize (place + utf8Length token.characters) rest = tokens)
    (others : ∀ next following, tokens = next :: following →
      (next :: following).getLast? = some last →
      Extends (place + utf8Length token.characters) rest next last) :
    Extends place (token.characters ++ rest) token last := by
  cases tokens with
  | nil =>
    obtain rfl : token = last := Option.some.inj ends
    refine ⟨[], token.characters, rest, rfl, ⟨List.prefix_rfl, List.suffix_rfl, nofun, ?_⟩, ?_, ?_⟩
    · exact ⟨codeOf rest, code, isSeparator_of_tokenize_eq_nil behind⟩
    · rw [span]
      rfl
    · rw [Span.stop, span]
      rfl
  | cons next following =>
    rw [List.getLast?_cons_cons] at ends
    obtain ⟨before, marked, after, rfl, encloses, _, stop⟩ := others next following rfl ends
    obtain ⟨separators, codeBehind, separate⟩ := encloses.behind
    refine ⟨[], token.characters ++ before ++ marked, after, ?_, ⟨?_, ?_, nofun, ?_⟩, ?_, ?_⟩
    · simp only [List.nil_append, List.append_assoc]
    · rw [List.append_assoc]
      exact List.prefix_append _ _
    · exact encloses.ends.trans (List.suffix_append _ _)
    · refine ⟨separators, ?_, separate⟩
      rw [codeBehind] at code
      simpa only [List.nil_append, List.append_assoc] using code
    · rw [span]
      rfl
    · rw [stop, utf8Length_append, utf8Length_append, utf8Length_nil]
      omega

/-- **The tokens of a line** reach from the start of the first to the end of the last, and what
surrounds them are separators. -/
theorem extends_of_tokenize (place : Nat) (line : List Char) {last : Token} :
    ∀ first tokens, tokenize place line = first :: tokens →
      (first :: tokens).getLast? = some last → Extends place line first last := by
  fun_induction tokenize place line with
  | case1 | case2 =>
    intro first tokens read
    cases read
  | case3 place character rest noComment separator ih =>
    intro first tokens read ends
    obtain ⟨before, marked, after, split, encloses, start, stop⟩ := ih first tokens read ends
    obtain ⟨separators, code, separate⟩ := encloses.behind
    refine ⟨character :: before, marked, after, ?_, ⟨encloses.starts, encloses.ends, ?_, ?_⟩,
      ?_, ?_⟩
    · rw [split, List.cons_append, List.cons_append]
    · rw [List.forall_mem_cons]
      exact ⟨separator, encloses.inFront⟩
    · refine ⟨separators, ?_, separate⟩
      rw [List.cons_append, List.cons_append, codeOf_cons (by simpa using noComment), code]
      rfl
    · rw [start, utf8Length_cons, Nat.add_assoc]
    · rw [stop, utf8Length_cons]
      omega
  | case4 place rest noComment noSeparator ih =>
    intro first tokens read ends
    obtain ⟨rfl, behind⟩ := List.cons.inj read
    apply extends_append (.colon place) rfl (codeOf_cons rfl) ends behind
    intro next following same
    exact ih next following (behind.trans same)
  | case5 place character rest noComment noSeparator noColon word ih =>
    intro first tokens read ends
    obtain ⟨rfl, behind⟩ := List.cons.inj read
    have starts := isWordCharacter_of_not noComment noSeparator noColon
    rw [cons_eq_word_append character rest]
    apply extends_append (.word place word) rfl _ ends behind
    · intro next following same
      exact ih next following (behind.trans same)
    · exact codeOf_append (isWord_cons_takeWhile rest starts).2

/-- What is read of a token: its characters in capitals, and its place. -/
def Token.asWord (token : Token) : Word := ⟨String.ofList (capitals token.characters), token.span⟩

namespace Content

variable {tokens : List Token} {words : List Word}

/-- The words in front of a colon, and the colon itself, are tokens of the line. -/
theorem exists_asWord_of_wordsBeforeColon {colon? : Option Span}
    (read : wordsBeforeColon tokens = (words, colon?)) :
    (∀ word ∈ words, ∃ token ∈ tokens, token.asWord = word) ∧
      ∀ colon ∈ colon?, ∃ token ∈ tokens, token.asWord = ⟨":", colon⟩ := by
  induction tokens generalizing words with
  | nil =>
    cases read
    exact ⟨nofun, nofun⟩
  | cons token tokens ih =>
    cases token with
    | colon start =>
      cases read
      refine ⟨nofun, ?_⟩
      intro colon here
      cases here
      exact ⟨.colon start, List.mem_cons_self, rfl⟩
    | word start characters =>
      obtain ⟨rfl, rfl⟩ := Prod.mk.inj read
      obtain ⟨others, colon⟩ := ih rfl
      refine ⟨?_, ?_⟩
      · rw [List.forall_mem_cons]
        refine ⟨⟨.word start characters, List.mem_cons_self, rfl⟩, ?_⟩
        intro word member
        obtain ⟨token, inside, same⟩ := others word member
        exact ⟨token, List.mem_cons_of_mem _ inside, same⟩
      · intro place here
        obtain ⟨token, inside, same⟩ := colon place here
        exact ⟨token, List.mem_cons_of_mem _ inside, same⟩

/-- Without a colon, the words are all of the tokens. -/
theorem wordsBeforeColon_eq_map (read : wordsBeforeColon tokens = (words, none)) :
    words = tokens.map Token.asWord := by
  induction tokens generalizing words with
  | nil =>
    cases read
    rfl
  | cons token tokens ih =>
    cases token with
    | colon start => cases read
    | word start characters =>
      obtain ⟨rfl, noColon⟩ := Prod.mk.inj read
      rw [List.map_cons, ← ih (Prod.ext rfl noColon)]
      rfl

/-- A misplaced colon is blamed on a token. -/
theorem exists_asWord_of_ofTokens_eq_error {found : Span × Fault}
    (failed : ofTokens tokens = .error found) :
    ∃ token ∈ tokens, found = (token.span, .invalidLabel token.asWord.text) := by
  unfold ofTokens at failed
  split at failed
  next => cases failed
  next =>
    split at failed
    next => cases failed
    next => cases failed
    next words colon read =>
      obtain ⟨words, colon⟩ := exists_asWord_of_wordsBeforeColon read
      split at failed
      next word last =>
        cases failed
        obtain ⟨token, inside, rfl⟩ := words word (List.mem_of_getLast? last)
        exact ⟨token, inside, rfl⟩
      next =>
        cases failed
        obtain ⟨token, inside, same⟩ := colon _ rfl
        refine ⟨token, inside, ?_⟩
        rw [same]
        exact congrArg (·, _) (congrArg Word.span same).symm

/-- The words of an instruction are the tokens of its line. -/
theorem exists_map_asWord_eq {head : Word} {operands : List Word}
    (read : ofTokens tokens = .ok (.instruction head operands)) :
    ∃ first rest, tokens = first :: rest ∧ first.asWord = head ∧
      rest.map Token.asWord = operands ∧ (wordsBeforeColon tokens).2 = none := by
  obtain ⟨start, characters, rest, rfl, rfl, words⟩ := exists_tokens_of_instruction read
  refine ⟨_, rest, rfl, rfl, (wordsBeforeColon_eq_map words).symm, ?_⟩
  rw [wordsBeforeColon, words]

theorem exists_asWord_of_instruction {head word : Word} {operands : List Word}
    (read : ofTokens tokens = .ok (.instruction head operands))
    (member : word ∈ head :: operands) : ∃ token ∈ tokens, token.asWord = word := by
  obtain ⟨first, rest, rfl, rfl, rfl, _⟩ := exists_map_asWord_eq read
  rw [← List.map_cons] at member
  exact List.mem_map.mp member

theorem exists_asWord_of_label {name : Word} (read : ofTokens tokens = .ok (.label name)) :
    ∃ token ∈ tokens, token.asWord = name := by
  obtain ⟨start, characters, colon, rfl, _, rfl⟩ := exists_tokens_of_label read
  exact ⟨.word start characters, List.mem_cons_self, rfl⟩

end Content

/-- Without a colon, the tokens of a line have the characters of its words. -/
theorem map_characters_tokenize (place : Nat) (line : List Char) :
    (Content.wordsBeforeColon (tokenize place line)).2 = none →
      (tokenize place line).map Token.characters = wordsOf (codeOf line) := by
  intro noColon
  have absent : ':' ∉ codeOf line := by
    rw [← isSome_wordsBeforeColon_tokenize_iff place, noColon]
    exact Bool.false_ne_true
  rw [← leadingWords_eq_wordsOf absent]
  clear absent
  fun_induction tokenize place line with
  | case1 => exact leadingWords_nil.symm
  | case2 place character rest comment => exact (leadingWords_of_startsComment comment).symm
  | case3 place character rest noComment separator ih =>
    rw [leadingWords_of_isSeparator (by simpa using noComment) separator]
    exact ih noColon
  | case4 place rest => cases noColon
  | case5 place character rest noComment noSeparator hasNoColon word ih =>
    have starts := isWordCharacter_of_not noComment noSeparator hasNoColon
    rw [leadingWords_cons_of_isWordCharacter rest starts, List.map_cons, ih noColon]
    rfl

/-- **The place of an instruction** reaches from the start of its mnemonic to the end of its last
operand. -/
theorem exists_encloses_of_instruction {place : Nat} {line : List Char} {head : Word}
    {operands : List Word}
    (read : Content.ofTokens (tokenize place line) = .ok (.instruction head operands)) :
    ∃ before marked after word words last, line = before ++ marked ++ after ∧
      head.spanThrough operands = ⟨place + utf8Length before, utf8Length marked⟩ ∧
      wordsOf (codeOf line) = word :: words ∧ (word :: words).getLast? = some last ∧
      Encloses before marked after word last ∧ String.ofList (capitals word) = head.text ∧
      words.length = operands.length := by
  obtain ⟨first, rest, tokens, rfl, rfl, noColon⟩ :=
    Content.exists_map_asWord_eq read
  have words := map_characters_tokenize place line noColon
  have ends : (first :: rest).getLast? = some (rest.getLast?.getD first) := List.getLast?_cons
  generalize final : rest.getLast?.getD first = last at ends
  obtain ⟨before, marked, after, split, encloses, start, stop⟩ :=
    extends_of_tokenize place line first rest tokens ends
  have lastWord : (rest.map Token.asWord).getLast?.getD first.asWord = last.asWord := by
    rw [List.getLast?_map, Option.getD_map, final]
  refine ⟨before, marked, after, first.characters, rest.map Token.characters, last.characters,
    split, ?_, ?_, ?_, encloses, rfl, ?_⟩
  · have begins : first.asWord.span.start = place + utf8Length before := start
    have finishes : last.asWord.span.stop = place + utf8Length before + utf8Length marked := stop
    rw [Word.spanThrough, lastWord, Span.through, begins, finishes, Nat.add_sub_cancel_left]
  · rw [← words, tokens, List.map_cons]
  · rw [← List.map_cons, List.getLast?_map, ends]
    rfl
  · rw [List.length_map, List.length_map]

end Breadboard
