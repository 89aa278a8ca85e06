import Breadboard.Isa.AddressMode
import Breadboard.Isa.Signedness

/-!
# Choices for an assembly

The width of jump addresses, the constants that are accepted, and whether the image is
filled up. The defaults are the widest of each and no filling.
-/

namespace Breadboard

/-- What is fixed for a whole assembly. -/
structure AssemblyOptions where
  mode : AddressMode := .elevenBit
  signedness : Signedness := .signed
  /-- Whether the image is filled up to the size of ROM. -/
  padded : Bool := false
deriving DecidableEq, Repr

end Breadboard
