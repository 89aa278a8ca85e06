import Breadboard.Isa.AddressMode
import Breadboard.Isa.Register

/-!
# Mnemonics and the opcode table

An opcode is either a byte of its own or a family in the low four bits, whose upper
four bits hold registers, a kind within the family, or the condition of a jump:

```text
  SSDD_ffff   two registers, source and destination
  RRTT_ffff   one register and a kind
  CCCC_ffff   a condition
```

Mnemonics are grouped by the operands they take, so that an instruction of the wrong
shape cannot be written down. `Mnemonic.row` is the only table of names, bit layouts
and costs; encoding and decoding both read it.
-/

namespace Breadboard

/-- Mnemonics without operands. -/
inductive BareOp where
  | nop
  | out
  | hlt
  | rst
deriving DecidableEq, Repr

/-- Mnemonics on one register. -/
inductive UnaryOp where
  | inc
  | dec
  | not
deriving DecidableEq, Repr

/-- Mnemonics on a destination and a source register. -/
inductive PairOp where
  | add
  | sub
  | mov
  | and
  | or
  | xor
  | cmp
deriving DecidableEq, Repr

/-- Mnemonics on a register and a constant byte. -/
inductive ImmediateOp where
  | ldi
  | cmi
deriving DecidableEq, Repr

/-- Mnemonics on a register and a RAM address. -/
inductive MemoryOp where
  | ldm
  | sav
deriving DecidableEq, Repr

/-- When a jump is taken. -/
inductive Condition where
  | always
  | zero
  | notZero
  | carry
  | equal
  | notGreater
  | less
deriving DecidableEq, Repr

inductive Shape where
  | none
  | oneRegister
  | twoRegisters
  | registerImmediate
  | registerAddress
  | jumpTarget
deriving DecidableEq, Repr

namespace Shape

def operandCount : Shape → Nat
  | none => 0
  | oneRegister | jumpTarget => 1
  | twoRegisters | registerImmediate | registerAddress => 2

/-- The encoded length of an instruction of this shape, its opcode included. -/
def size (mode : AddressMode) : Shape → Nat
  | none | oneRegister | twoRegisters => 1
  | registerImmediate | registerAddress => 2
  | jumpTarget => mode.jumpSize

theorem size_pos (mode : AddressMode) (shape : Shape) : 0 < shape.size mode := by
  cases shape <;> cases mode <;> decide

theorem size_le_three (mode : AddressMode) (shape : Shape) : shape.size mode ≤ 3 := by
  cases shape <;> cases mode <;> decide

end Shape

inductive Layout where
  | literal (byte : UInt8)
  /-- Source and destination registers above the family. -/
  | pair (family : UInt8)
  /-- A register and a kind above the family. -/
  | kind (family code : UInt8)
  | condition (family code : UInt8)
deriving DecidableEq, Repr

namespace Layout

/-- The fixed low bits, or the whole byte of a literal. -/
def family : Layout → UInt8
  | literal byte => byte
  | pair family | kind family _ | condition family _ => family

/-- How many bits the fixed part has. -/
def opcodeBits : Layout → Nat
  | literal _ => 8
  | pair _ | kind _ _ | condition _ _ => 4

def fits (byte : UInt8) : Layout → Bool
  | literal opcode => byte == opcode
  | pair family => byte &&& 0x0F == family
  | kind family code => byte &&& 0x0F == family && byte >>> 4 &&& 3 == code
  | condition family code => byte &&& 0x0F == family && byte >>> 4 == code

/-- The opcode byte with the given registers in its upper and lower register
fields. A layout without such a field leaves the register out. -/
def opcode (upper lower : Register) : Layout → UInt8
  | literal byte => byte
  | pair family => upper.code <<< 6 ||| lower.code <<< 4 ||| family
  | kind family code => upper.code <<< 6 ||| code <<< 4 ||| family
  | condition family code => code <<< 4 ||| family

end Layout

def upperField (byte : UInt8) : Register := Register.ofCode (byte >>> 6)

def lowerField (byte : UInt8) : Register := Register.ofCode (byte >>> 4)

/-- What an instruction does, without its operands. -/
inductive Mnemonic where
  | bare (op : BareOp)
  | unary (op : UnaryOp)
  | pair (op : PairOp)
  | immediate (op : ImmediateOp)
  | memory (op : MemoryOp)
  | jump (condition : Condition)
deriving DecidableEq, Repr

namespace Mnemonic

def shape : Mnemonic → Shape
  | bare _ => .none
  | unary _ => .oneRegister
  | pair _ => .twoRegisters
  | immediate _ => .registerImmediate
  | memory _ => .registerAddress
  | jump _ => .jumpTarget

def size (mode : AddressMode) (mnemonic : Mnemonic) : Nat :=
  mnemonic.shape.size mode

structure Row where
  name : String
  layout : Layout
  cycles : Nat
deriving DecidableEq, Repr

def row : Mnemonic → Row
  | bare .nop => ⟨"Nop", .literal 0x00, 1⟩
  | bare .out => ⟨"Out", .literal 0x10, 2⟩
  | bare .hlt => ⟨"Hlt", .literal 0x20, 1⟩
  | bare .rst => ⟨"Rst", .literal 0xFF, 1⟩
  | pair .add => ⟨"Add", .pair 0x1, 3⟩
  | pair .sub => ⟨"Sub", .pair 0x2, 3⟩
  | unary .inc => ⟨"Inc", .kind 0x3 2, 2⟩
  | unary .dec => ⟨"Dec", .kind 0x3 3, 2⟩
  | immediate .ldi => ⟨"Ldi", .kind 0x4 0, 3⟩
  | memory .ldm => ⟨"Ldm", .kind 0x4 1, 4⟩
  | memory .sav => ⟨"Sav", .kind 0x4 2, 4⟩
  | jump .always => ⟨"Jmp", .condition 0x5 0, 3⟩
  | jump .zero => ⟨"Jmz", .condition 0x5 1, 3⟩
  | jump .notZero => ⟨"Jnz", .condition 0x5 2, 3⟩
  | jump .carry => ⟨"Jmc", .condition 0x5 3, 3⟩
  | jump .equal => ⟨"Jme", .condition 0x5 4, 3⟩
  | jump .notGreater => ⟨"Jng", .condition 0x5 5, 3⟩
  | jump .less => ⟨"Jml", .condition 0x5 6, 3⟩
  | pair .mov => ⟨"Mov", .pair 0x6, 2⟩
  | pair .and => ⟨"And", .pair 0x7, 3⟩
  | pair .or => ⟨"Or", .pair 0x8, 3⟩
  | pair .xor => ⟨"Xor", .pair 0x9, 3⟩
  | unary .not => ⟨"Not", .kind 0xA 0, 2⟩
  | pair .cmp => ⟨"Cmp", .pair 0xB, 3⟩
  | immediate .cmi => ⟨"Cmi", .kind 0xC 0, 3⟩

/-- The mnemonics in the order of the table. -/
def all : List Mnemonic :=
  [bare .nop, bare .out, bare .hlt, bare .rst, pair .add, pair .sub, unary .inc, unary .dec,
    immediate .ldi, memory .ldm, memory .sav, jump .always, jump .zero, jump .notZero, jump .carry,
    jump .equal, jump .notGreater, jump .less, pair .mov, pair .and, pair .or, pair .xor,
    unary .not, pair .cmp, immediate .cmi]

theorem mem_all (mnemonic : Mnemonic) : mnemonic ∈ all := by
  rcases mnemonic with op | op | op | op | op | op <;> cases op <;> decide

/-- The name in the table's spelling, `Add`. -/
def name (mnemonic : Mnemonic) : String := mnemonic.row.name

def layout (mnemonic : Mnemonic) : Layout := mnemonic.row.layout

def cycles (mnemonic : Mnemonic) : Nat := mnemonic.row.cycles

/-- The name in capitals, as messages and disassemblies spell it. -/
def text (mnemonic : Mnemonic) : String := capitalized mnemonic.name

/-- The mnemonic with a given name, in any mixture of cases. -/
def ofText? (text : String) : Option Mnemonic :=
  all.find? (sameLetters ·.name text)

def ofOpcode? (byte : UInt8) : Option Mnemonic :=
  all.find? (·.layout.fits byte)

/-- No two mnemonics share an opcode, whatever their registers are. -/
theorem ofOpcode?_opcode (mnemonic : Mnemonic) (upper lower : Register) :
    ofOpcode? (mnemonic.layout.opcode upper lower) = some mnemonic := by
  have everywhere : ∀ mnemonic ∈ all, ∀ upper ∈ Register.all, ∀ lower ∈ Register.all,
      ofOpcode? (mnemonic.layout.opcode upper lower) = some mnemonic := by decide +kernel
  exact everywhere mnemonic mnemonic.mem_all upper upper.mem_all lower lower.mem_all

end Mnemonic

end Breadboard
