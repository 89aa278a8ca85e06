import Breadboard.Text.Letters

/-!
# Labels and their addresses

Labels are kept in the order of their declarations and looked up in either case. The
first declaration of a name stands; a later one is refused and changes nothing.
-/

namespace Breadboard

/-- The declared names, in capitals, with their addresses. -/
structure Symbols where
  entries : List (String × Nat) := []
deriving DecidableEq, Repr

namespace Symbols

def get? (name : String) (symbols : Symbols) : Option Nat :=
  symbols.entries.lookup (capitalized name)

/-- Declares a name. If it was declared before, the first component is the address that it
has already. The second one is the table behind the declaration. -/
def insert (name : String) (address : Nat) (symbols : Symbols) : Option Nat × Symbols :=
  match symbols.get? name with
  | some earlier => (some earlier, symbols)
  | none => (none, ⟨symbols.entries ++ [(capitalized name, address)]⟩)

def size (symbols : Symbols) : Nat := symbols.entries.length

end Symbols

end Breadboard
