import Breadboard.Proofs.Source.Scanning
import Breadboard.Source.Cursor

/-!
# What a cursor finds

A cursor that moves over accepted characters stops in front of the first one that is not accepted,
or at the end of the line, whatever it shows there (`Cursor.skipWhile_eq`). So it cuts off the
longest piece (`Cursor.advance_of_skipWhile`), and what it finds on a line are the tokens of that
line, in the same places (`Cursor.scan_ofLine`).
-/

namespace Breadboard

def Token.kind : Token → PieceKind
  | word _ _ => .word
  | colon _ => .colon

/-- What a cursor knows of a token. -/
def Token.piece (token : Token) : PieceKind × Span := (token.kind, token.span)

namespace Cursor

/-- **A cursor stops in front of the first character that is not accepted.** Whether the mark at
the end of the line is accepted makes no difference. -/
theorem skipWhile_eq (accepts : Char → Bool) (cursor : Cursor) :
    cursor.skipWhile accepts =
      ⟨cursor.leftAtStart, cursor.characters.dropWhile accepts⟩ := by
  fun_induction skipWhile accepts cursor with
  | case1 cursor more ih =>
    obtain ⟨leftAtStart, characters⟩ := cursor
    cases characters with
    | nil => exact absurd rfl more.2
    | cons first rest =>
      have accepted : accepts first = true := more.1
      rw [ih, List.dropWhile_cons_of_pos accepted]
      rfl
  | case2 cursor stops =>
    obtain ⟨leftAtStart, characters⟩ := cursor
    cases characters with
    | nil => rfl
    | cons first rest =>
      rw [List.dropWhile_cons_of_neg]
      exact fun accepted => stops ⟨accepted, Bool.false_ne_true⟩

/-- The length of a piece is that of its characters. -/
theorem pieceLength_append (piece rest : List Char) :
    pieceLength ⟨utf8Length (piece ++ rest), rest⟩ = utf8Length piece := by
  rw [pieceLength, utf8Length_append, Nat.add_sub_cancel]

/-- **A cursor cuts off the longest piece.** -/
theorem advance_of_skipWhile {first : Char} (rest : List Char) {kind : PieceKind}
    {accepts : Char → Bool}
    (skips : ∀ cursor, skipPiece first cursor = (kind, cursor.skipWhile accepts)) :
    (ofLine (first :: rest)).advance =
      (⟨kind, utf8Length (first :: rest.takeWhile accepts)⟩, ofLine (rest.dropWhile accepts)) := by
  have length := pieceLength_append (first :: rest.takeWhile accepts) (rest.dropWhile accepts)
  rw [List.cons_append, List.takeWhile_append_dropWhile] at length
  simp only [advance, bump, ofLine, List.head?_cons, List.tail_cons, skips, skipWhile_eq, length,
    startPiece]

theorem advance_colon (rest : List Char) :
    (ofLine (':' :: rest)).advance = (⟨.colon, 1⟩, ofLine rest) := by
  have length : pieceLength ⟨utf8Length (':' :: rest), rest⟩ = 1 := pieceLength_append [':'] rest
  have skipped (cursor : Cursor) : skipPiece ':' cursor = (.colon, cursor) := rfl
  simp only [advance, bump, ofLine, List.head?_cons, List.tail_cons, skipped, length, startPiece]

/-- What a cursor finds, from what it does at its next piece. -/
theorem scan_of_advance {place length : Nat} {cursor behind : Cursor} {kind : PieceKind}
    (advanced : cursor.advance = (⟨kind, length⟩, behind)) :
    scan place cursor =
      match kind with
      | .lineEnd | .comment => []
      | .separators => scan (place + length) behind
      | .word => (.word, ⟨place, length⟩) :: scan (place + length) behind
      | .colon => (.colon, ⟨place, length⟩) :: scan (place + length) behind := by
  rw [scan]
  split
  all_goals
    rename_i same
    rw [advanced] at same
    cases same
    simp only [advanced]

/-- **A cursor finds the tokens of a line**, each with its kind and its place. -/
theorem scan_ofLine (place : Nat) (line : List Char) :
    scan place (ofLine line) = (tokenize place line).map Token.piece := by
  -- Separators are passed one by one in the tokens and as a run by the cursor.
  induction size : line.length using Nat.strongRecOn generalizing place line with
  | ind size ih =>
    subst size
    cases line with
    | nil =>
      rw [scan_of_advance rfl, tokenize]
      rfl
    | cons first rest =>
      have shorter (accepts : Char → Bool) :
          (rest.dropWhile accepts).length < (first :: rest).length :=
        Nat.lt_succ_of_le (length_dropWhile_le accepts rest)
      by_cases comment : startsComment first = true
      · have skips (cursor : Cursor) :
            skipPiece first cursor = (.comment, cursor.skipWhile (· != '\n')) := by
          rw [skipPiece, if_pos comment]
        rw [scan_of_advance (advance_of_skipWhile rest skips), tokenize, if_pos comment]
        rfl
      by_cases separator : isSeparator first = true
      · have skips (cursor : Cursor) :
            skipPiece first cursor = (.separators, cursor.skipWhile isSeparator) := by
          rw [skipPiece, if_neg comment, if_pos separator]
        have run : ∀ character ∈ first :: rest.takeWhile isSeparator,
            isSeparator character = true := by
          rw [List.forall_mem_cons]
          exact ⟨separator, List.all_eq_true.mp List.all_takeWhile⟩
        have passed := tokenize_separators_append place run (rest.dropWhile isSeparator)
        rw [List.cons_append, List.takeWhile_append_dropWhile] at passed
        rw [scan_of_advance (advance_of_skipWhile rest skips), passed]
        exact ih _ (shorter isSeparator) _ _ rfl
      by_cases colon : first = ':'
      · subst colon
        rw [scan_of_advance (advance_colon rest), tokenize, if_neg comment, if_neg separator,
          if_pos rfl, List.map_cons]
        exact congrArg (List.cons _) (ih _ (Nat.lt_succ_self _) _ _ rfl)
      · have skips (cursor : Cursor) :
            skipPiece first cursor = (.word, cursor.skipWhile isWordCharacter) := by
          rw [skipPiece, if_neg comment, if_neg separator, if_neg colon]
        rw [scan_of_advance (advance_of_skipWhile rest skips), tokenize, if_neg comment,
          if_neg separator, if_neg colon, List.map_cons]
        exact congrArg (List.cons _) (ih _ (shorter isWordCharacter) _ _ rfl)

end Cursor

end Breadboard
