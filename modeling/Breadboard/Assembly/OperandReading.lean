import Breadboard.Assembly.Options
import Breadboard.Assembly.Symbols
import Breadboard.Isa.Instruction
import Breadboard.Source.Line
import Breadboard.Source.Literal

/-!
# Reading mnemonics and operands

The number of operands is checked first, then each operand from left to right. A jump
target that is no number may be a label; no other operand is ever looked up.
-/

namespace Breadboard

namespace Word

/-- The place from the start of a mnemonic to the end of its last operand. -/
def spanThrough (mnemonic : Word) (operands : List Word) : Span :=
  mnemonic.span.through ((operands.getLast?.getD mnemonic).span)

def readMnemonic (word : Word) : Reading Mnemonic :=
  match Mnemonic.ofText? word.text with
  | some mnemonic => .ok mnemonic
  | none => .error (word.span, .unknownMnemonic word.text)

def readRegister (word : Word) : Reading Register :=
  match Register.ofText? word.text with
  | some register => .ok register
  | none => .error (word.span, .invalidRegister word.text)

def readNumber (word : Word) : Reading Int :=
  match Literal.read? word.text.toList with
  | some number => .ok number
  | none => .error (word.span, .malformedOperand word.text)

def readImmediate (signedness : Signedness) (word : Word) : Reading UInt8 := do
  let number ← word.readNumber
  match signedness.byte? number with
  | some byte => .ok byte
  | none => .error (word.span, .immediateOutOfRange number signedness)

def readRamAddress (word : Word) : Reading UInt8 := do
  let number ← word.readNumber
  if 0 ≤ number ∧ number < ramSize then .ok (UInt8.ofNat number.toNat)
  else .error (word.span, .ramAddressOutOfRange number)

/-- The number that a jump target stands for, before its range is checked. -/
def readAddress (symbols : Symbols) (word : Word) : Reading Int :=
  match Literal.read? word.text.toList with
  | some number => .ok number
  | none =>
    if isIdentifier word.text.toList then
      match symbols.get? word.text with
      | some address => .ok address
      | none => .error (word.span, .undefinedLabel word.text)
    else .error (word.span, .malformedOperand word.text)

def readTarget (mode : AddressMode) (symbols : Symbols) (word : Word) : Reading UInt16 := do
  let address ← word.readAddress symbols
  if 0 ≤ address ∧ address < mode.limit then .ok (UInt16.ofNat address.toNat)
  else .error (word.span, .romAddressOutOfRange address mode.limit)

end Word

/-- Reads the operands that stand behind a mnemonic. `head` is the mnemonic as it is
written. -/
def readInstruction (options : AssemblyOptions) (symbols : Symbols) (head : Word)
    (mnemonic : Mnemonic) (operands : List Word) : Reading Instruction :=
  match mnemonic, operands with
  | .bare op, [] => .ok (.bare op)
  | .unary op, [register] => do
    return .unary op (← register.readRegister)
  | .pair op, [destination, source] => do
    return .pair op (← destination.readRegister) (← source.readRegister)
  | .immediate op, [register, constant] => do
    return .immediate op (← register.readRegister) (← constant.readImmediate options.signedness)
  | .memory op, [register, address] => do
    return .memory op (← register.readRegister) (← address.readRamAddress)
  | .jump condition, [target] => do
    return .jump condition (← target.readTarget options.mode symbols)
  | _, _ =>
    .error (head.spanThrough operands,
      .operandCount mnemonic mnemonic.shape.operandCount operands.length)

end Breadboard
