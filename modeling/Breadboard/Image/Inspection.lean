import Breadboard.Image.Disassembly

/-!
# Looking over an image

What can be said about a raw image before it is run: how much of it is in use, how many
instructions it holds, and what is suspicious about it.
-/

namespace Breadboard

/-- A problem that can be seen without running the image. -/
inductive ImageIssue where
  | empty
  | startsWithPadding
  | tooLarge (size : Nat)
deriving DecidableEq, Repr

namespace ImageIssue

def message : ImageIssue → String
  | empty => "image is empty"
  | startsWithPadding => "first byte is 0xFF and will reset the CPU"
  | tooLarge size =>
    "image is " ++ decimal size ++ " bytes, only " ++ decimal romSize ++ " fit in ROM"

end ImageIssue

structure Inspection where
  size : Nat
  used : Nat
  /-- The known instructions before the padding at the end. -/
  instructions : Nat
  issues : List ImageIssue
deriving DecidableEq, Repr

/-- The image without the padding at its end. -/
def withoutPadding (image : List UInt8) : List UInt8 :=
  (image.reverse.dropWhile (· == padByte)).reverse

/-- The problems of an image: first what its first byte shows, then its size. -/
def issuesOf (image : List UInt8) : List ImageIssue :=
  let atStart : List ImageIssue :=
    match image with
    | [] => [.empty]
    | first :: _ => if first = padByte then [.startsWithPadding] else []
  let bySize : List ImageIssue :=
    if romSize < image.length then [.tooLarge image.length] else []
  atStart ++ bySize

def inspect (mode : AddressMode) (image : List UInt8) : Inspection where
  size := image.length
  used := image.countP (· != padByte)
  instructions := (disassemble mode (withoutPadding image)).countP (!·.decoded.isUnknown)
  issues := issuesOf image

end Breadboard
