/-!
# Places in a source text

A place is a range of the text's UTF-8 bytes. Characters of several bytes therefore
take up several places.
-/

namespace Breadboard

/-- The bytes of a list of characters in UTF-8. -/
def utf8Length (characters : List Char) : Nat :=
  characters.foldr (fun character bytes => character.utf8Size + bytes) 0

@[simp] theorem utf8Length_nil : utf8Length [] = 0 := rfl

@[simp] theorem utf8Length_cons (character : Char) (rest : List Char) :
    utf8Length (character :: rest) = character.utf8Size + utf8Length rest := rfl

@[simp] theorem utf8Length_append (front back : List Char) :
    utf8Length (front ++ back) = utf8Length front + utf8Length back := by
  induction front with
  | nil => simp
  | cons character rest ih =>
    simp only [List.cons_append, utf8Length_cons, ih]
    omega

structure Span where
  start : Nat
  length : Nat
deriving DecidableEq, Repr

namespace Span

def stop (span : Span) : Nat := span.start + span.length

def isEmpty (span : Span) : Bool := span.length = 0

/-- The range from the start of one range to the end of another. -/
def through (first last : Span) : Span := ⟨first.start, last.stop - first.start⟩

end Span

end Breadboard
