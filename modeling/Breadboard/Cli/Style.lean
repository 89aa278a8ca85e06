import Breadboard.Text.Column

/-!
# Colours and emphasis

Escape sequences around a text switch a style on and off again. Messages use them only
where colours are wanted; the state panel always does.
-/

namespace Breadboard

inductive Colour where
  | red
  | green
  | blue
  | cyan
deriving DecidableEq, Repr

def Colour.code : Colour → String
  | red => "31"
  | green => "32"
  | blue => "34"
  | cyan => "36"

/-- An escape sequence that switches a style on. -/
def escape (code : String) : String := "\x1b[" ++ code ++ "m"

def styled (code text : String) : String := escape code ++ text ++ escape "0"

def bold (text : String) : String := styled "1" text

def dim (text : String) : String := styled "2" text

/-- A text in a style, where colours are wanted. -/
def styledIf (coloured : Bool) (code text : String) : String :=
  if coloured then styled code text else text

/-- A line of a report: a short heading at the right of its column, and what it is
about. -/
def reportLine (coloured : Bool) (colour : Colour) (heading text : String) : String :=
  styledIf coloured colour.code (padLeft 12 heading) ++ " " ++ text ++ "\n"

end Breadboard
