import Breadboard.Proofs.Isa.Encoding
import Mathlib.Algebra.Ring.Nat

/-!
# Machine code

The encodings of a program stand one behind the other, without anything between them.
The address of an instruction is therefore the sum of the sizes of those before it.
-/

namespace Breadboard

/-- The bytes of a program. -/
def machineCode (mode : AddressMode) (program : List Instruction) : List UInt8 :=
  program.flatMap (·.encode mode)

/-- How many bytes a program takes up, by the opcode table. -/
def codeSize (mode : AddressMode) (program : List Instruction) : Nat :=
  (program.map (·.size mode)).sum

/-- The address of an instruction of a program that starts at zero. -/
def offset (mode : AddressMode) (program : List Instruction) (index : Nat) : Nat :=
  codeSize mode (program.take index)

section

variable (mode : AddressMode) (instruction : Instruction) (program : List Instruction)

@[simp] theorem machineCode_nil : machineCode mode [] = [] := rfl

@[simp] theorem machineCode_cons :
    machineCode mode (instruction :: program) =
      instruction.encode mode ++ machineCode mode program := rfl

@[simp] theorem codeSize_nil : codeSize mode [] = 0 := rfl

@[simp] theorem codeSize_cons :
    codeSize mode (instruction :: program) = instruction.size mode + codeSize mode program := by
  simp only [codeSize, List.map_cons, List.sum_cons]

@[simp] theorem offset_zero : offset mode program 0 = 0 := rfl

@[simp] theorem offset_cons_succ (index : Nat) :
    offset mode (instruction :: program) (index + 1) =
      instruction.size mode + offset mode program index := by
  rw [offset, List.take_succ_cons, codeSize_cons, offset]

theorem machineCode_append (front back : List Instruction) :
    machineCode mode (front ++ back) = machineCode mode front ++ machineCode mode back :=
  List.flatMap_append

theorem codeSize_append (front back : List Instruction) :
    codeSize mode (front ++ back) = codeSize mode front + codeSize mode back := by
  rw [codeSize, List.map_append, List.sum_append, codeSize, codeSize]

/-- An instruction without operands is its opcode. -/
theorem machineCode_replicate_bare (op : BareOp) (count : Nat) :
    machineCode mode (List.replicate count (.bare op)) =
      List.replicate count (Instruction.bare op).opcode := by
  induction count with
  | zero => rfl
  | succ count ih =>
    rw [List.replicate_succ, List.replicate_succ, machineCode_cons, ih]
    rfl

/-- Machine code is as long as the opcode table says. -/
theorem length_machineCode : (machineCode mode program).length = codeSize mode program := by
  induction program with
  | nil => rfl
  | cons instruction program ih =>
    rw [machineCode_cons, List.length_append, ih, instruction.length_encode, codeSize_cons]

end

end Breadboard
