import Breadboard.Source.Token

/-!
# Scanning with a cursor

A cursor moves over a line and cuts it into pieces. It keeps the characters that are left and the
number of bytes that were left where the current piece starts, so that the length of a piece is
known without a look back. Behind the last character it shows a mark that may stand in a line as
well, so that what it shows does not tell whether the end is reached.
-/

namespace Breadboard

inductive PieceKind where
  | word
  | colon
  | comment
  | separators
  | lineEnd
deriving DecidableEq, Repr

/-- What a piece of a line is, and its length in bytes. -/
structure Piece where
  kind : PieceKind
  length : Nat
deriving DecidableEq, Repr

structure Cursor where
  /-- The bytes that were left where the current piece starts. -/
  leftAtStart : Nat
  characters : List Char

namespace Cursor

def ofLine (line : List Char) : Cursor := ⟨utf8Length line, line⟩

/-- What is shown behind the last character. -/
def endMark : Char := Char.ofNat 0

/-- The character in front of the cursor. -/
def peek (cursor : Cursor) : Char := cursor.characters.head?.getD endMark

def isAtEnd (cursor : Cursor) : Bool := cursor.characters.isEmpty

/-- The bytes of the current piece. -/
def pieceLength (cursor : Cursor) : Nat := cursor.leftAtStart - utf8Length cursor.characters

/-- Starts a piece where the cursor is. -/
def startPiece (cursor : Cursor) : Cursor := ofLine cursor.characters

/-- Moves over the next character, if there is one. -/
def bump (cursor : Cursor) : Option Char × Cursor :=
  (cursor.characters.head?, { cursor with characters := cursor.characters.tail })

/-- Moves over characters as long as they are accepted. -/
def skipWhile (accepts : Char → Bool) (cursor : Cursor) : Cursor :=
  if accepts cursor.peek ∧ ¬cursor.isAtEnd then skipWhile accepts cursor.bump.2 else cursor
termination_by cursor.characters.length
decreasing_by
  rename_i more
  obtain ⟨_, notAtEnd⟩ := more
  rw [isAtEnd, List.isEmpty_iff_length_eq_zero] at notAtEnd
  rw [bump, List.length_tail]
  omega

/-- Moves over the piece that starts with a character, which is passed already. -/
def skipPiece (first : Char) (cursor : Cursor) : PieceKind × Cursor :=
  if startsComment first then (.comment, cursor.skipWhile (· != '\n'))
  else if isSeparator first then (.separators, cursor.skipWhile isSeparator)
  else if first = ':' then (.colon, cursor)
  else (.word, cursor.skipWhile isWordCharacter)

/-- Moves over the next piece. -/
def advance (cursor : Cursor) : Piece × Cursor :=
  match cursor.bump with
  | (none, _) => (⟨.lineEnd, 0⟩, cursor)
  | (some first, bumped) =>
    let (kind, behind) := bumped.skipPiece first
    (⟨kind, behind.pieceLength⟩, behind.startPiece)

theorem length_skipWhile_le (accepts : Char → Bool) (cursor : Cursor) :
    (cursor.skipWhile accepts).characters.length ≤ cursor.characters.length := by
  fun_induction skipWhile accepts cursor with
  | case1 cursor _ ih => exact Nat.le_trans ih (List.tail_sublist cursor.characters).length_le
  | case2 => exact Nat.le_refl _

theorem length_skipPiece_le (first : Char) (cursor : Cursor) :
    (cursor.skipPiece first).2.characters.length ≤ cursor.characters.length := by
  unfold skipPiece
  split
  · exact length_skipWhile_le _ cursor
  · split
    · exact length_skipWhile_le _ cursor
    · split
      · exact Nat.le_refl _
      · exact length_skipWhile_le _ cursor

/-- **The cursor moves on** as long as it is not at the end of the line. -/
theorem length_advance_lt {cursor : Cursor} (more : cursor.advance.1.kind ≠ .lineEnd) :
    cursor.advance.2.characters.length < cursor.characters.length := by
  obtain ⟨leftAtStart, characters⟩ := cursor
  cases characters with
  | nil => exact absurd rfl more
  | cons first rest =>
    exact Nat.lt_succ_of_le (length_skipPiece_le first ⟨leftAtStart, rest⟩)

/-- The words and colons up to the comment, from a cursor at the given place on. -/
def scan (place : Nat) (cursor : Cursor) : List (PieceKind × Span) :=
  let length := cursor.advance.1.length
  let behind := cursor.advance.2
  match _ : cursor.advance.1.kind with
  | .lineEnd | .comment => []
  | .separators => scan (place + length) behind
  | .word => (.word, ⟨place, length⟩) :: scan (place + length) behind
  | .colon => (.colon, ⟨place, length⟩) :: scan (place + length) behind
termination_by cursor.characters.length
decreasing_by
  all_goals
    rename_i kind
    apply length_advance_lt
    rw [kind]
    decide

end Cursor

end Breadboard
