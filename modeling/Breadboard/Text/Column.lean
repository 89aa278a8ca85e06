/-!
# Columns

Texts filled up with spaces to the width of a column. A text that is wider than its
column is left as it is, so nothing is ever cut off.
-/

namespace Breadboard

/-- Fills a text up on the right, so that it stands at the left of its column. -/
def padRight (width : Nat) (text : String) : String :=
  text ++ String.ofList (List.replicate (width - text.length) ' ')

/-- Fills a text up on the left, so that it stands at the right of its column. -/
def padLeft (width : Nat) (text : String) : String :=
  String.ofList (List.replicate (width - text.length) ' ') ++ text

end Breadboard
