import Breadboard.Isa.Mnemonic
import Breadboard.Text.Radix

/-!
# Instructions, their encoding and their text

An instruction is a mnemonic together with operands of the mnemonic's shape; the type
leaves no room for any other operands. It is encoded as an opcode byte followed by the
bytes of its constant, RAM address or jump target, and written in the syntax in which
the assembler reads it.
-/

namespace Breadboard

inductive Operands where
  | none
  | register (register : Register)
  | pair (destination source : Register)
  | immediate (register : Register) (value : UInt8)
  | address (register : Register) (address : UInt8)
  | target (address : UInt16)
deriving DecidableEq, Repr

/-- The RAM address in a byte. RAM has 16 bytes, so only the low four bits count. -/
def ramAddress (byte : UInt8) : UInt8 := byte &&& 0x0F

namespace Operands

def shape : Operands → Shape
  | none => .none
  | register _ => .oneRegister
  | pair _ _ => .twoRegisters
  | immediate _ _ => .registerImmediate
  | address _ _ => .registerAddress
  | target _ => .jumpTarget

/-- The operands with the constant, RAM address or jump target taken from the bytes
after the opcode. Bytes that are missing count as zero. -/
def withPayload (mode : AddressMode) (payload : List UInt8) : Operands → Operands
  | immediate reg _ => immediate reg (payload.getD 0 0)
  | address reg _ => address reg (ramAddress (payload.getD 0 0))
  | target _ => target (mode.readTarget payload)
  | operands => operands

theorem shape_withPayload (mode : AddressMode) (payload : List UInt8) (operands : Operands) :
    (operands.withPayload mode payload).shape = operands.shape := by
  cases operands <;> rfl

end Operands

/-- A mnemonic with operands of its shape. -/
inductive Instruction where
  | bare (op : BareOp)
  | unary (op : UnaryOp) (register : Register)
  | pair (op : PairOp) (destination source : Register)
  | immediate (op : ImmediateOp) (register : Register) (value : UInt8)
  | memory (op : MemoryOp) (register : Register) (address : UInt8)
  | jump (condition : Condition) (target : UInt16)
deriving DecidableEq, Repr

namespace Instruction

def mnemonic : Instruction → Mnemonic
  | bare op => .bare op
  | unary op _ => .unary op
  | pair op _ _ => .pair op
  | immediate op _ _ => .immediate op
  | memory op _ _ => .memory op
  | jump condition _ => .jump condition

def operands : Instruction → Operands
  | bare _ => .none
  | unary _ register => .register register
  | pair _ destination source => .pair destination source
  | immediate _ register value => .immediate register value
  | memory _ register address => .address register address
  | jump _ target => .target target

/-- Puts operands after a mnemonic, if they are of the shape that it takes. -/
def ofOperands? : Mnemonic → Operands → Option Instruction
  | .bare op, .none => some (bare op)
  | .unary op, .register register => some (unary op register)
  | .pair op, .pair destination source => some (pair op destination source)
  | .immediate op, .immediate register value => some (immediate op register value)
  | .memory op, .address register address => some (memory op register address)
  | .jump condition, .target target => some (jump condition target)
  | _, _ => none

theorem shape_operands (instruction : Instruction) :
    instruction.operands.shape = instruction.mnemonic.shape := by
  cases instruction <;> rfl

@[simp] theorem ofOperands?_operands (instruction : Instruction) :
    ofOperands? instruction.mnemonic instruction.operands = some instruction := by
  cases instruction <;> rfl

/-- Operands are refused exactly when their shape is not the mnemonic's. -/
theorem isSome_ofOperands?_iff (mnemonic : Mnemonic) (operands : Operands) :
    (ofOperands? mnemonic operands).isSome ↔ operands.shape = mnemonic.shape := by
  cases mnemonic <;> cases operands <;> simp [ofOperands?, Operands.shape, Mnemonic.shape]

def size (mode : AddressMode) (instruction : Instruction) : Nat :=
  instruction.mnemonic.size mode

/-- The register that stands in the upper register field: the source of a pair, and
the only register of every other instruction that has one. -/
def upperRegister : Instruction → Register
  | pair _ _ source => source
  | unary _ register | immediate _ register _ | memory _ register _ => register
  | bare _ | jump _ _ => .a

/-- The register that stands in the lower register field, the destination of a
pair. -/
def lowerRegister : Instruction → Register
  | pair _ destination _ => destination
  | _ => .a

def opcode (instruction : Instruction) : UInt8 :=
  instruction.mnemonic.layout.opcode instruction.upperRegister instruction.lowerRegister

def payload (mode : AddressMode) : Instruction → List UInt8
  | immediate _ _ value => [value]
  | memory _ _ address => [ramAddress address]
  | jump _ target => mode.targetBytes target
  | bare _ | unary _ _ | pair _ _ _ => []

def encode (mode : AddressMode) (instruction : Instruction) : List UInt8 :=
  instruction.opcode :: instruction.payload mode

/-- The encoding is as long as the opcode table says. -/
theorem length_encode (mode : AddressMode) (instruction : Instruction) :
    (instruction.encode mode).length = instruction.size mode := by
  cases instruction <;> cases mode <;> rfl

/-- The instruction with the constant, RAM address or jump target taken from the
bytes after the opcode. Bytes that are missing count as zero. -/
def withPayload (mode : AddressMode) (payload : List UInt8) : Instruction → Instruction
  | immediate op register _ => immediate op register (payload.getD 0 0)
  | memory op register _ => memory op register (ramAddress (payload.getD 0 0))
  | jump condition _ => jump condition (mode.readTarget payload)
  | instruction => instruction

theorem mnemonic_withPayload (mode : AddressMode) (payload : List UInt8)
    (instruction : Instruction) :
    (instruction.withPayload mode payload).mnemonic = instruction.mnemonic := by
  cases instruction <;> rfl

theorem operands_withPayload (mode : AddressMode) (payload : List UInt8)
    (instruction : Instruction) :
    (instruction.withPayload mode payload).operands =
      instruction.operands.withPayload mode payload := by
  cases instruction <;> rfl

/-- The instruction as a source line. -/
def text (instruction : Instruction) : String :=
  instruction.mnemonic.text ++
    match instruction with
    | bare _ => ""
    | unary _ register => " " ++ register.text
    | pair _ destination source => " " ++ destination.text ++ " " ++ source.text
    | immediate _ register value => " " ++ register.text ++ " 0x" ++ hex 2 value.toNat
    | memory _ register address => " " ++ register.text ++ " 0x" ++ hex 1 address.toNat
    | jump _ target => " 0x" ++ hex 4 target.toNat

end Instruction

namespace Mnemonic

/-- The instruction whose registers stand in an opcode byte. Its constant, RAM
address or jump target is zero until the bytes after the opcode are known. -/
def unpack (opcode : UInt8) : Mnemonic → Instruction
  | bare op => .bare op
  | unary op => .unary op (upperField opcode)
  | pair op => .pair op (lowerField opcode) (upperField opcode)
  | immediate op => .immediate op (upperField opcode) 0
  | memory op => .memory op (upperField opcode) 0
  | jump condition => .jump condition 0

theorem mnemonic_unpack (opcode : UInt8) (mnemonic : Mnemonic) :
    (mnemonic.unpack opcode).mnemonic = mnemonic := by
  cases mnemonic <;> rfl

end Mnemonic

end Breadboard
