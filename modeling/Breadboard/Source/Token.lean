import Breadboard.Source.Span
import Breadboard.Text.Letters

/-!
# Tokens of a source line

A line is read up to its comment. Spaces, tabs, carriage returns and commas separate
words alike, a colon is a token of its own, and every other character belongs to a
word, whatever it is; a word reaches as far as it can.
-/

namespace Breadboard

def isSeparator (character : Char) : Bool :=
  character == ' ' || character == '\t' || character == '\r' || character == '\n' ||
    character == ','

/-- Characters that start a comment, which ends with the line. -/
def startsComment (character : Char) : Bool :=
  character == ';' || character == '@'

def isWordCharacter (character : Char) : Bool :=
  !isSeparator character && !startsComment character && character != ':'

/-- A token and the place in the source text where it starts. -/
inductive Token where
  | word (start : Nat) (characters : List Char)
  | colon (start : Nat)
deriving DecidableEq, Repr

namespace Token

def characters : Token → List Char
  | word _ characters => characters
  | colon _ => [':']

def span : Token → Span
  | word start characters => ⟨start, utf8Length characters⟩
  | colon start => ⟨start, 1⟩

end Token

theorem length_dropWhile_le {α : Type} (p : α → Bool) (list : List α) :
    (list.dropWhile p).length ≤ list.length :=
  (List.dropWhile_sublist p).length_le

/-- The tokens of a line whose first character stands at the given place. -/
def tokenize (place : Nat) : List Char → List Token
  | [] => []
  | character :: rest =>
    if startsComment character then []
    else if isSeparator character then tokenize (place + character.utf8Size) rest
    else if character = ':' then .colon place :: tokenize (place + character.utf8Size) rest
    else
      let word := character :: rest.takeWhile isWordCharacter
      .word place word :: tokenize (place + utf8Length word) (rest.dropWhile isWordCharacter)
termination_by line => line.length
decreasing_by
  · simp
  · simp
  · simp only [List.length_cons]
    have := length_dropWhile_le isWordCharacter rest
    omega

/-- Whether a word can name a label: a letter or underscore, then letters, digits and
underscores. -/
def isIdentifier : List Char → Bool
  | [] => false
  | first :: rest =>
    (first.isAlpha || first == '_') && rest.all fun c => c.isAlphanum || c == '_'

/-- A word in capitals and the place where it is written. -/
structure Word where
  text : String
  span : Span
deriving DecidableEq, Repr

def Word.ofCharacters (start : Nat) (characters : List Char) : Word :=
  ⟨String.ofList (capitals characters), ⟨start, utf8Length characters⟩⟩

end Breadboard
