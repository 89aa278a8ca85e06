import Breadboard.Isa.Mnemonic
import Breadboard.Isa.Signedness
import Breadboard.Source.Span
import Breadboard.Text.Blank

/-!
# What can be wrong with a source text

Assembly stops at the first fault. It is reported with its line, with the place in the
source text that it concerns, and with advice.
-/

namespace Breadboard

inductive Fault where
  | unknownMnemonic (name : String)
  | operandCount (mnemonic : Mnemonic) (expected found : Nat)
  | invalidRegister (name : String)
  | malformedOperand (text : String)
  | undefinedLabel (name : String)
  | immediateOutOfRange (value : Int) (signedness : Signedness)
  | ramAddressOutOfRange (value : Int)
  | romAddressOutOfRange (value : Int) (limit : Nat)
  /-- The name was declared before, at the given address. -/
  | duplicateLabel (name : String) (address : Nat)
  | invalidLabel (name : String)
  | programTooLarge (size : Nat)
deriving DecidableEq, Repr

/-- A word between the marks that set it off in a message. -/
def quoted (text : String) : String := "`" ++ text ++ "`"

namespace Fault

def message : Fault → String
  | unknownMnemonic name => "Unsupported instruction " ++ quoted name
  | operandCount mnemonic expected found =>
    quoted mnemonic.text ++ " expects " ++ decimal expected ++ " operand(s), found " ++
      decimal found
  | invalidRegister name => "Invalid register " ++ quoted name
  | malformedOperand text => "Malformed operand " ++ quoted text
  | undefinedLabel name => "Undefined label " ++ quoted name
  | immediateOutOfRange value signedness =>
    "Literal " ++ signedDecimal value ++ " is out of range for " ++ signedness.text ++ " mode"
  | ramAddressOutOfRange value => "RAM address " ++ signedDecimal value ++ " is out of range"
  | romAddressOutOfRange value limit =>
    "ROM address " ++ signedDecimal value ++ " is outside of 0.." ++ decimal limit
  | duplicateLabel name address =>
    "Label " ++ quoted name ++ " already declared at 0x" ++ hex 4 address
  | invalidLabel name => "Invalid label " ++ quoted name
  | programTooLarge size => "Program of " ++ decimal size ++ " bytes does not fit in ROM"

/-- The group of faults that it belongs to. -/
def code : Fault → String
  | unknownMnemonic _ => "asm::mnemonic"
  | operandCount _ _ _ => "asm::operands"
  | invalidRegister _ => "asm::register"
  | malformedOperand _ => "asm::literal"
  | undefinedLabel _ | duplicateLabel _ _ | invalidLabel _ => "asm::label"
  | immediateOutOfRange _ _ => "asm::range"
  | ramAddressOutOfRange _ => "asm::ram"
  | romAddressOutOfRange _ _ | programTooLarge _ => "asm::rom"

def help : Fault → String
  | unknownMnemonic _ => "check the list of available instructions in the documentation."
  | operandCount mnemonic _ _ =>
    "check the operands allowed for " ++ quoted mnemonic.text ++ "."
  | invalidRegister _ => "registers are named A, B, C and D."
  | malformedOperand _ => "literals are decimal, hex (0x1F, $1F) or binary (0b101, %101)."
  | undefinedLabel _ => "declare the label on its own line, like " ++ quoted "loop:"
  | immediateOutOfRange _ signedness =>
    "ranges from " ++ signedDecimal signedness.lowest ++ " to 255 are allowed in " ++
      signedness.text ++ " mode."
  | ramAddressOutOfRange _ => "RAM addresses range from 0 to 15."
  | romAddressOutOfRange _ limit =>
    "jump targets range from 0 to " ++ decimal (limit - 1) ++ "."
  | duplicateLabel _ _ => "labels are only allowed once per file."
  | invalidLabel _ =>
    "labels start with a letter or " ++ quoted "_" ++ " and stand alone on their line."
  | programTooLarge _ => "programs must fit in " ++ decimal romSize ++ " bytes of ROM."

def label : Fault → String
  | unknownMnemonic _ => "unknown instruction"
  | operandCount _ _ _ => "incorrect operands"
  | invalidRegister _ => "not a register"
  | malformedOperand _ => "incorrect literal"
  | undefinedLabel _ => "undefined label"
  | immediateOutOfRange _ _ => "out-of-range literal"
  | ramAddressOutOfRange _ => "out-of-range RAM address"
  | romAddressOutOfRange _ _ => "out-of-range ROM address"
  | duplicateLabel _ _ => "duplicate label"
  | invalidLabel _ => "invalid label"
  | programTooLarge _ => "does not fit"

end Fault

/-- The result of reading a part of a line: a value, or a fault and its place. -/
abbrev Reading (α : Type) := Except (Span × Fault) α

/-- A fault and the line in which it was found. -/
structure CompileError where
  /-- The number of the line, from one on. -/
  line : Nat
  /-- The line as it is written, with its comment. -/
  text : String
  /-- What the fault concerns, as a place in the whole source text. -/
  span : Span
  fault : Fault
deriving DecidableEq, Repr

namespace CompileError

def message (error : CompileError) : String :=
  "line " ++ decimal error.line ++ ": " ++ error.fault.message ++ " in " ++
    quoted (trimmed error.text)

end CompileError

end Breadboard
