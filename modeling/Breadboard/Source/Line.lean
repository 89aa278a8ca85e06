import Breadboard.Source.Fault
import Breadboard.Source.Token

/-!
# Lines of a source text

A line is empty, declares a label, or holds a mnemonic with its operands. A label stands
alone on its line, so a colon anywhere but behind the only word is a fault.
-/

namespace Breadboard

/-- What a line says, its comment and its case left out. -/
inductive Content where
  | blank
  | label (name : Word)
  | instruction (mnemonic : Word) (operands : List Word)
deriving DecidableEq, Repr

namespace Content

/-- The line in its normal form: capitals, with one space between words. -/
def text : Content → String
  | blank => ""
  | label name => name.text ++ ":"
  | instruction mnemonic operands =>
    String.intercalate " " (mnemonic.text :: operands.map (·.text))

/-- The name that the tokens declare, if they are an identifier and a colon. -/
def declaredLabel? : List Token → Option Word
  | [.word start characters, .colon _] =>
    if isIdentifier characters then some (Word.ofCharacters start characters) else none
  | _ => none

/-- The words in front of the first colon, and the place of that colon. -/
def wordsBeforeColon : List Token → List Word × Option Span
  | [] => ([], none)
  | .colon start :: _ => ([], some ⟨start, 1⟩)
  | .word start characters :: rest =>
    let (words, colon?) := wordsBeforeColon rest
    (Word.ofCharacters start characters :: words, colon?)

/-- What the tokens of a line say. A misplaced colon is blamed on the word in front of
it, or on the colon itself if there is none. -/
def ofTokens (tokens : List Token) : Reading Content :=
  match declaredLabel? tokens with
  | some name => .ok (label name)
  | none =>
    match wordsBeforeColon tokens with
    | ([], none) => .ok blank
    | (mnemonic :: operands, none) => .ok (instruction mnemonic operands)
    | (words, some colon) =>
      match words.getLast? with
      | some word => .error (word.span, .invalidLabel word.text)
      | none => .error (colon, .invalidLabel ":")

end Content

structure RawLine where
  /-- Counted from one on. -/
  number : Nat
  /-- The place of the first character in the source text. -/
  start : Nat
  characters : List Char
deriving DecidableEq, Repr

namespace RawLine

def text (raw : RawLine) : String := String.ofList raw.characters

def span (raw : RawLine) : Span := ⟨raw.start, utf8Length raw.characters⟩

def error (raw : RawLine) (span : Span) (fault : Fault) : CompileError :=
  ⟨raw.number, raw.text, span, fault⟩

end RawLine

structure Line where
  raw : RawLine
  content : Content
deriving DecidableEq, Repr

namespace Line

def text (line : Line) : String := line.content.text

def error (line : Line) (span : Span) (fault : Fault) : CompileError :=
  line.raw.error span fault

def ofRaw (raw : RawLine) : Except CompileError Line :=
  match Content.ofTokens (tokenize raw.start raw.characters) with
  | .ok content => .ok ⟨raw, content⟩
  | .error (span, fault) => .error (raw.error span fault)

end Line

/-- The lines of a text, without the line feeds between them. There is one more than
there are line feeds. -/
def splitLines (text : List Char) : List (List Char) :=
  text.foldr
    (fun character lines =>
      if character = '\n' then [] :: lines
      else
        match lines with
        | [] => [[character]]
        | line :: rest => (character :: line) :: rest)
    [[]]

/-- A line without the carriage return at its end, if it has one. -/
def withoutReturn (line : List Char) : List Char :=
  if line.getLast? = some '\r' then line.dropLast else line

/-- Numbers the lines of a text and places them. A carriage return at the end of a line
is left out of it, but counts for the places of the lines that follow. -/
def placeLines (number start : Nat) : List (List Char) → List RawLine
  | [] => []
  | line :: rest =>
    ⟨number, start, withoutReturn line⟩ ::
      placeLines (number + 1) (start + utf8Length line + 1) rest

/-- Reads a source text, up to the first line that is at fault. -/
def readSource (source : String) : Except CompileError (List Line) :=
  (placeLines 1 0 (splitLines source.toList)).mapM Line.ofRaw

end Breadboard
