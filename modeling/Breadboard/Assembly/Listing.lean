import Breadboard.Text.Column
import Breadboard.Text.Radix

/-!
# Listings

A listing has one entry for each label and each instruction of a source text: its
address, its bytes, the bits of its opcode, and its text in normal form.
-/

namespace Breadboard

structure ListingEntry where
  line : Nat
  address : Nat
  /-- Empty for a label. -/
  bytes : List UInt8
  text : String
deriving DecidableEq, Repr

namespace ListingEntry

def render (entry : ListingEntry) : String :=
  let bits :=
    match entry.bytes with
    | [] => ""
    | opcode :: _ => bitGroups opcode
  hex 4 entry.address ++ "  " ++ padRight 9 (hexBytes entry.bytes) ++ " " ++ padRight 9 bits ++
    "  " ++ entry.text

end ListingEntry

/-- The whole listing, each entry on a line. -/
def renderListing (listing : List ListingEntry) : String :=
  String.join (listing.map fun entry => entry.render ++ "\n")

end Breadboard
