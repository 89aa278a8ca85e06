import Breadboard.Proofs.Source.CursorScan
import Breadboard.Proofs.Source.Places
import Mathlib.Data.List.Pairwise

/-!
# The tokens of a line

The tokens of a line are the colons and the longest words in front of its comment
(`mem_tokenize_iff`). They stand in the order of the line and do not overlap (`pairwise_tokenize`),
and every character but a separator belongs to one of them (`exists_holds_of_split`). So they are
what a cursor finds that takes as many characters for a word as it can (`tokenize_maximal_munch`).
-/

namespace Breadboard

/-- A word that no character of a word touches on either side. -/
structure IsLongestWord (before word after : List Char) : Prop where
  isWord : IsWord word
  starts : ∀ character ∈ before.getLast?, isWordCharacter character = false
  ends : ∀ character ∈ after.head?, isWordCharacter character = false

/-- The token is a colon or a longest word of the code, which starts at the given place. -/
inductive Token.Stands (place : Nat) (code : List Char) : Token → Prop where
  | colon {before after : List Char} (split : code = before ++ ':' :: after) :
      Stands place code (.colon (place + utf8Length before))
  | word {before word after : List Char} (split : code = before ++ (word ++ after))
      (longest : IsLongestWord before word after) :
      Stands place code (.word (place + utf8Length before) word)

/-- The place contains the byte at a position. -/
def Span.Holds (span : Span) (position : Nat) : Prop :=
  span.start ≤ position ∧ position < span.stop

theorem utf8Length_pos {characters : List Char} (someCharacter : characters ≠ []) :
    0 < utf8Length characters := by
  cases characters with
  | nil => exact absurd rfl someCharacter
  | cons first rest => exact Nat.add_pos_left first.utf8Size_pos _

theorem IsWord.not_head? {word : List Char} (isWord : IsWord word) (rest : List Char) :
    ¬∀ character ∈ (word ++ rest).head?, isWordCharacter character = false := by
  intro ends
  cases word with
  | nil => exact isWord.1 rfl
  | cons first word =>
    have starts := isWord.2 first List.mem_cons_self
    rw [ends first rfl] at starts
    cases starts

theorem IsWord.not_getLast? {word : List Char} (isWord : IsWord word) :
    ¬∀ character ∈ word.getLast?, isWordCharacter character = false := by
  intro starts
  have last := List.getLast?_eq_some_getLast isWord.1
  have inWord := isWord.2 _ (List.getLast_mem isWord.1)
  rw [starts _ last] at inWord
  cases inWord

/-- Two longest words at the same place are one. -/
theorem eq_of_word_append_eq {word other rest behind : List Char} (isWord : IsWord word)
    (isOther : IsWord other) (ends : ∀ character ∈ rest.head?, isWordCharacter character = false)
    (otherEnds : ∀ character ∈ behind.head?, isWordCharacter character = false)
    (same : word ++ rest = other ++ behind) : word = other := by
  have longest := congrArg (List.takeWhile isWordCharacter) same
  rwa [List.takeWhile_append_of_pos isWord.2, List.takeWhile_append_of_pos isOther.2,
    takeWhile_eq_nil_of_ends ends, takeWhile_eq_nil_of_ends otherEnds, List.append_nil,
    List.append_nil] at longest

namespace IsLongestWord

variable {front before word after : List Char}

theorem of_append (longest : IsLongestWord (front ++ before) word after) :
    IsLongestWord before word after where
  isWord := longest.isWord
  starts := by
    intro character last
    apply longest.starts
    rw [List.getLast?_append, last]
    rfl
  ends := longest.ends

theorem append (longest : IsLongestWord before word after)
    (apart : before = [] → ∀ character ∈ front.getLast?, isWordCharacter character = false) :
    IsLongestWord (front ++ before) word after where
  isWord := longest.isWord
  starts := by
    intro character last
    cases before with
    | nil =>
      rw [List.append_nil] at last
      exact apart rfl character last
    | cons first before =>
      rw [List.getLast?_append_of_ne_nil _ (List.cons_ne_nil _ _)] at last
      exact longest.starts character last
  ends := longest.ends

end IsLongestWord

namespace Token

variable {place : Nat} {front rest : List Char} {token : Token}

theorem not_stands_nil : ¬token.Stands place [] := by
  intro stands
  cases stands with
  | colon split => simp at split
  | word split longest =>
    obtain ⟨_, behind⟩ := List.append_eq_nil_iff.mp split.symm
    exact longest.isWord.1 (List.append_eq_nil_iff.mp behind).1

theorem Stands.exists_split {code : List Char} (stands : token.Stands place code) :
    ∃ before after, code = before ++ (token.characters ++ after) ∧
      token.span = ⟨place + utf8Length before, utf8Length token.characters⟩ := by
  cases stands with
  | colon split => exact ⟨_, _, split, rfl⟩
  | word split longest => exact ⟨_, _, split, rfl⟩

theorem Stands.characters_ne_nil {code : List Char} (stands : token.Stands place code) :
    token.characters ≠ [] := by
  cases stands with
  | colon => exact List.cons_ne_nil _ _
  | word _ longest => exact longest.isWord.1

/-- A token contains no separator. -/
theorem Stands.isSeparator_of_mem {code : List Char} (stands : token.Stands place code) :
    ∀ character ∈ token.characters, isSeparator character = false := by
  cases stands with
  | colon =>
    rintro _ (_ | ⟨_, ⟨⟩⟩)
    rfl
  | word _ longest =>
    intro character member
    exact ((isWordCharacter_iff character).mp (longest.isWord.2 character member)).1

/-- What stands in the rest of the code stands in all of it, if no word goes on from its front part
into its rest. -/
theorem Stands.append (stands : token.Stands (place + utf8Length front) rest)
    (apart : (∀ character ∈ front.getLast?, isWordCharacter character = false) ∨
      ∀ character ∈ rest.head?, isWordCharacter character = false) :
    token.Stands place (front ++ rest) := by
  cases stands with
  | @colon before after split =>
    rw [Nat.add_assoc, ← utf8Length_append]
    exact .colon (by rw [split, List.append_assoc])
  | @word before word after split longest =>
    rw [Nat.add_assoc, ← utf8Length_append]
    refine .word (by rw [split, List.append_assoc]) (longest.append ?_)
    rintro rfl
    rcases apart with starts | ends
    · exact starts
    · rw [split] at ends
      exact absurd ends (longest.isWord.not_head? after)

/-- Behind a character that belongs to no word, the tokens are those of the rest. -/
theorem stands_cons_iff {first : Char} (noWord : isWordCharacter first = false) :
    token.Stands place (first :: rest) ↔
      (first = ':' ∧ token = .colon place) ∨ token.Stands (place + first.utf8Size) rest := by
  constructor
  · intro stands
    cases stands with
    | @colon before after split =>
      cases before with
      | nil => exact .inl ⟨(List.cons.inj split).1, rfl⟩
      | cons _ before =>
        obtain ⟨rfl, behind⟩ := List.cons.inj split
        rw [utf8Length_cons, ← Nat.add_assoc]
        exact .inr (.colon behind)
    | @word before word after split longest =>
      cases before with
      | nil =>
        have ends := longest.isWord.not_head? after
        rw [← List.nil_append (word ++ after), ← split] at ends
        refine absurd ?_ ends
        rintro _ ⟨⟩
        exact noWord
      | cons _ before =>
        obtain ⟨rfl, behind⟩ := List.cons.inj split
        have longest : IsLongestWord ([first] ++ before) word after := longest
        rw [utf8Length_cons, ← Nat.add_assoc]
        exact .inr (.word behind longest.of_append)
  · rintro (⟨rfl, rfl⟩ | stands)
    · exact .colon (List.nil_append (':' :: rest)).symm
    · have apart : ∀ character ∈ [first].getLast?, isWordCharacter character = false := by
        rintro _ ⟨⟩
        exact noWord
      exact stands.append (.inl apart)

/-- A word up to a character that belongs to none is a token, in front of those of the rest. -/
theorem stands_word_append_iff {word : List Char} (isWord : IsWord word)
    (ends : ∀ character ∈ rest.head?, isWordCharacter character = false) :
    token.Stands place (word ++ rest) ↔
      token = .word place word ∨ token.Stands (place + utf8Length word) rest := by
  constructor
  · intro stands
    cases stands with
    | @colon before after split =>
      rcases List.append_eq_append_iff.mp split with ⟨more, rfl, behind⟩ | ⟨more, cut, behind⟩
      · rw [utf8Length_append, ← Nat.add_assoc]
        exact .inr (.colon behind)
      · cases more with
        | nil =>
          rw [List.append_nil] at cut
          rw [← cut]
          have first : rest = [] ++ ':' :: after := behind.symm
          exact .inr (.colon first)
        | cons mark more =>
          obtain ⟨rfl, _⟩ := List.cons.inj behind
          have inWord := isWord.2 ':' (by rw [cut]; simp)
          cases inWord
    | @word before other after split longest =>
      rcases List.append_eq_append_iff.mp split with ⟨more, rfl, behind⟩ | ⟨more, cut, behind⟩
      · rw [utf8Length_append, ← Nat.add_assoc]
        exact .inr (.word behind longest.of_append)
      · by_cases whole : before = []
        · subst whole
          rw [List.nil_append] at cut
          subst cut
          rw [eq_of_word_append_eq isWord longest.isWord ends longest.ends behind.symm]
          exact .inl rfl
        · -- What stands in front of the other word would belong to it.
          have inside : IsWord before := by
            refine ⟨whole, fun character member => isWord.2 character ?_⟩
            rw [cut]
            exact List.mem_append_left more member
          exact absurd longest.starts inside.not_getLast?
  · rintro (rfl | stands)
    · exact .word (List.nil_append (word ++ rest)).symm ⟨isWord, nofun, ends⟩
    · exact stands.append (.inr ends)

end Token

/-- **The tokens of a line are its colons and its longest words**, up to the comment. -/
theorem mem_tokenize_iff (place : Nat) (line : List Char) (token : Token) :
    token ∈ tokenize place line ↔ token.Stands place (codeOf line) := by
  fun_induction tokenize place line with
  | case1 => exact iff_of_false List.not_mem_nil Token.not_stands_nil
  | case2 place character rest comment =>
    rw [codeOf_cons_of_startsComment comment]
    exact iff_of_false List.not_mem_nil Token.not_stands_nil
  | case3 place character rest noComment separator ih =>
    have noColon : character ≠ ':' := by
      rintro rfl
      cases separator
    rw [codeOf_cons (by simpa using noComment), ih,
      Token.stands_cons_iff (isWordCharacter_of_isSeparator separator)]
    exact (or_iff_right fun colon => noColon colon.1).symm
  | case4 place rest noComment noSeparator ih =>
    rw [codeOf_cons rfl, List.mem_cons, ih, Token.stands_cons_iff rfl, eq_self, true_and]
  | case5 place character rest noComment noSeparator noColon word ih =>
    have isWord := isWord_cons_takeWhile rest
      (isWordCharacter_of_not noComment noSeparator noColon)
    rw [cons_eq_word_append character rest, codeOf_append isWord.2, List.mem_cons, ih,
      Token.stands_word_append_iff isWord (head?_codeOf_dropWhile rest)]

theorem start_le_of_mem_tokenize {place : Nat} {line : List Char} {token : Token}
    (member : token ∈ tokenize place line) : place ≤ token.span.start := by
  obtain ⟨before, _, _, span⟩ := exists_split_of_mem_tokenize member
  rw [span]
  exact Nat.le_add_right place (utf8Length before)

/-- **Tokens stand one behind the other.** -/
theorem pairwise_tokenize (place : Nat) (line : List Char) :
    (tokenize place line).Pairwise fun token next => token.span.stop ≤ next.span.start := by
  fun_induction tokenize place line with
  | case1 | case2 => exact .nil
  | case3 place character rest noComment separator ih => exact ih
  | case4 | case5 =>
    rename_i ih
    exact .cons (fun _ member => start_le_of_mem_tokenize member) ih

section

variable {place : Nat} {line front back : List Char} {character : Char}

/-- Every character of the code that is no separator belongs to a token. -/
theorem exists_holds_of_split (split : codeOf line = front ++ character :: back)
    (noSeparator : isSeparator character = false) :
    ∃ token ∈ tokenize place line, token.span.Holds (place + utf8Length front) := by
  fun_induction tokenize place line generalizing front with
  | case1 => simp [codeOf] at split
  | case2 place first rest comment =>
    rw [codeOf_cons_of_startsComment comment] at split
    simp at split
  | case3 place first rest noComment separator ih =>
    rw [codeOf_cons (by simpa using noComment)] at split
    cases front with
    | nil =>
      obtain ⟨rfl, _⟩ := List.cons.inj split
      rw [separator] at noSeparator
      cases noSeparator
    | cons _ front =>
      obtain ⟨rfl, behind⟩ := List.cons.inj split
      rw [utf8Length_cons, ← Nat.add_assoc]
      exact ih behind
  | case4 place rest noComment _ ih =>
    rw [codeOf_cons rfl] at split
    cases front with
    | nil => exact ⟨_, List.mem_cons_self, Nat.le_refl _, Nat.lt_succ_self _⟩
    | cons _ front =>
      obtain ⟨rfl, behind⟩ := List.cons.inj split
      obtain ⟨token, member, holds⟩ := ih behind
      rw [utf8Length_cons, ← Nat.add_assoc]
      exact ⟨token, List.mem_cons_of_mem _ member, holds⟩
  | case5 place first rest noComment noSeparatorFirst noColon word =>
    rename_i ih
    have isWord : IsWord word := isWord_cons_takeWhile rest
      (isWordCharacter_of_not noComment noSeparatorFirst noColon)
    rw [cons_eq_word_append first rest, codeOf_append isWord.2] at split
    change word ++ _ = _ at split
    clear_value word
    have later {more : List Char}
        (behind : codeOf (rest.dropWhile isWordCharacter) = more ++ character :: back) :
        ∃ token ∈ .word place word ::
            tokenize (place + utf8Length word) (rest.dropWhile isWordCharacter),
          token.span.Holds (place + utf8Length (word ++ more)) := by
      obtain ⟨token, member, holds⟩ := ih behind
      rw [utf8Length_append, ← Nat.add_assoc]
      exact ⟨token, List.mem_cons_of_mem _ member, holds⟩
    -- The character stands behind the word, or it belongs to it.
    rcases List.append_eq_append_iff.mp split with ⟨more, rfl, behind⟩ | ⟨more, cut, behind⟩
    · exact later behind
    · cases more with
      | nil =>
        rw [List.append_nil] at cut
        subst cut
        have none : codeOf (rest.dropWhile isWordCharacter) = [] ++ character :: back := behind.symm
        have found := later none
        rwa [List.append_nil] at found
      | cons inWord more =>
        have positive := inWord.utf8Size_pos
        refine ⟨_, List.mem_cons_self, Nat.le_add_right _ _, ?_⟩
        change place + utf8Length front < place + utf8Length word
        rw [cut, utf8Length_append, utf8Length_cons]
        omega

/-- A character inside of a piece of the text belongs to that piece. -/
theorem mem_of_utf8Length_lt {before marked after : List Char}
    (same : before ++ (marked ++ after) = front ++ character :: back)
    (starts : utf8Length before ≤ utf8Length front)
    (ends : utf8Length front < utf8Length before + utf8Length marked) : character ∈ marked := by
  rcases List.append_eq_append_iff.mp same with ⟨more, rfl, behind⟩ | ⟨more, rfl, behind⟩
  · rw [utf8Length_append] at ends
    rcases List.append_eq_append_iff.mp behind with ⟨others, rfl, _⟩ | ⟨others, rfl, rest⟩
    · rw [utf8Length_append] at ends
      omega
    · cases others with
      | nil =>
        rw [List.append_nil] at ends
        omega
      | cons first others =>
        obtain ⟨rfl, _⟩ := List.cons.inj rest
        exact List.mem_append_right _ List.mem_cons_self
  · cases more with
    | nil =>
      cases marked with
      | nil =>
        rw [List.append_nil, utf8Length_nil] at ends
        omega
      | cons first marked =>
        obtain ⟨rfl, _⟩ := List.cons.inj behind
        exact List.mem_cons_self
    | cons first more =>
      have positive := first.utf8Size_pos
      rw [utf8Length_append, utf8Length_cons] at starts
      omega

/-- No token reaches over a separator. -/
theorem not_holds_of_isSeparator (split : codeOf line = front ++ character :: back)
    (separator : isSeparator character = true) {token : Token}
    (member : token ∈ tokenize place line) : ¬token.span.Holds (place + utf8Length front) := by
  have stands := (mem_tokenize_iff place line token).mp member
  obtain ⟨before, after, marked, span⟩ := stands.exists_split
  rintro ⟨starts, ends⟩
  rw [Span.stop, span] at ends
  rw [span] at starts
  dsimp only at starts ends
  have inside := mem_of_utf8Length_lt (marked.symm.trans split) (by omega) (by omega)
  rw [stands.isSeparator_of_mem character inside] at separator
  cases separator

/-- Tokens that do not overlap do not hold the same byte. -/
theorem eq_of_holds {tokens : List Token} {position : Nat}
    (ordered : tokens.Pairwise fun token next => token.span.stop ≤ next.span.start)
    {token other : Token} (member : token ∈ tokens) (otherMember : other ∈ tokens)
    (holds : token.span.Holds position) (otherHolds : other.span.Holds position) :
    token = other := by
  have agree : tokens.Pairwise fun token next =>
      token.span.Holds position → next.span.Holds position → token = next := by
    apply ordered.imp
    rintro token next before ⟨_, ends⟩ ⟨starts, _⟩
    omega
  have symmetric : Std.Symm fun token next : Token =>
      token.span.Holds position → next.span.Holds position → token = next :=
    ⟨fun _ _ same holds otherHolds => (same otherHolds holds).symm⟩
  exact agree.forall_of_forall (fun _ _ _ _ => rfl) member otherMember holds otherHolds

end

/-- **The tokens are those of a longest match.** A cursor, which may show a character of a word
behind the last one, finds just these. They are the colons and the longest words of the code, each
once and in the order of the line. None is empty, and each is found at its place in whatever text
the line stands. A separator belongs to no token, and every other character of the code to one. -/
theorem tokenize_maximal_munch (place : Nat) (line : List Char) :
    let tokens := tokenize place line
    Cursor.scan place (.ofLine line) = tokens.map Token.piece ∧
    (∀ token, token ∈ tokens ↔ token.Stands place (codeOf line)) ∧
    tokens.Pairwise (fun token next => token.span.stop ≤ next.span.start) ∧
    (∀ token ∈ tokens, token.span.isEmpty = false ∧
      ∀ source front back, source.toList = front ++ line ++ back → utf8Length front = place →
        token.span.slice? source = some (String.ofList token.characters)) ∧
    ∀ front character back, codeOf line = front ++ character :: back →
      if isSeparator character then ∀ token ∈ tokens, ¬token.span.Holds (place + utf8Length front)
      else ∃! token, token ∈ tokens ∧ token.span.Holds (place + utf8Length front) := by
  intro tokens
  have ordered := pairwise_tokenize place line
  refine ⟨Cursor.scan_ofLine place line, mem_tokenize_iff place line, ordered, ?_, ?_⟩
  · intro token member
    have stands := (mem_tokenize_iff place line token).mp member
    obtain ⟨before, after, rfl, span⟩ := exists_split_of_mem_tokenize member
    refine ⟨?_, ?_⟩
    · have positive := utf8Length_pos stands.characters_ne_nil
      rw [Span.isEmpty, span]
      exact decide_eq_false (Nat.ne_of_gt positive)
    · rintro source front back whole rfl
      have marked : source.toList = (front ++ before) ++ token.characters ++ (after ++ back) := by
        rw [whole]
        simp only [List.append_assoc]
      rw [span, ← utf8Length_append]
      exact Span.slice?_eq_some marked
  · intro front character back split
    split
    next separator => exact fun token member => not_holds_of_isSeparator split separator member
    next noSeparator =>
      obtain ⟨token, member, holds⟩ :=
        exists_holds_of_split split (by simpa using noSeparator)
      exact ⟨token, ⟨member, holds⟩, fun other found =>
        eq_of_holds ordered found.1 member found.2 holds⟩

theorem tokenize_maximal_munch_of_end_marks :
    let line := ['a', Cursor.endMark, ',', 'é', ':', Cursor.endMark, ';', 'b']
    let tokens : List Token :=
      [.word 3 ['a', Cursor.endMark], .word 6 ['é'], .colon 8, .word 9 [Cursor.endMark]]
    tokenize 3 line = tokens ∧
      Cursor.scan 3 (.ofLine line) =
        [(.word, ⟨3, 2⟩), (.word, ⟨6, 2⟩), (.colon, ⟨8, 1⟩), (.word, ⟨9, 1⟩)] ∧
      Token.Stands 3 ['a', Cursor.endMark, ',', 'é', ':', Cursor.endMark]
        (.word 3 ['a', Cursor.endMark]) := by
  intro line tokens
  have read : tokenize 3 line = tokens := by decide +kernel
  obtain ⟨scanned, stands, _⟩ := tokenize_maximal_munch 3 line
  rw [read] at scanned stands
  have code : codeOf line = ['a', Cursor.endMark, ',', 'é', ':', Cursor.endMark] := by decide
  refine ⟨read, scanned, ?_⟩
  rw [← code]
  exact (stands _).mp List.mem_cons_self

end Breadboard
