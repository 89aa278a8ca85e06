import Breadboard.Image.Disassembly
import Breadboard.Proofs.Isa.MachineCode

/-!
# Disassembling machine code

Machine code has no marks between its instructions, so reading it stays in step only
because every encoding is exactly as long as its first byte says
(`disassembleFrom_encode_append`). By induction over a program, the lines of its
disassembly are its instructions at their addresses, each with its own bytes
(`disassembleFrom_machineCode`).
-/

namespace Breadboard

/-- The lines that show a program whose first instruction stands at an address. -/
def programLines (mode : AddressMode) (address : Nat) (program : List Instruction) :
    List DisassemblyLine :=
  program.mapIdx fun index instruction =>
    ⟨address + offset mode program index, .known (instruction.reduced mode),
      instruction.encode mode⟩

theorem programLines_cons (mode : AddressMode) (address : Nat) (instruction : Instruction)
    (program : List Instruction) :
    programLines mode address (instruction :: program) =
      ⟨address, .known (instruction.reduced mode), instruction.encode mode⟩ ::
        programLines mode (address + instruction.size mode) program := by
  simp only [programLines, List.mapIdx_cons, offset_zero, Nat.add_zero, offset_cons_succ,
    Nat.add_assoc]

/-- Every line of a program is known. -/
theorem countP_programLines (mode : AddressMode) (address : Nat) (program : List Instruction) :
    (programLines mode address program).countP (!·.decoded.isUnknown) = program.length := by
  induction program generalizing address with
  | nil => rfl
  | cons instruction program ih =>
    rw [programLines_cons, List.countP_cons, ih]
    rfl

theorem size_reduced (mode : AddressMode) (instruction : Instruction) :
    (instruction.reduced mode).size mode = instruction.size mode := by
  cases instruction <;> rfl

/-- Reading an encoding shows its instruction and goes on behind it. -/
theorem disassembleFrom_encode_append (mode : AddressMode) (address : Nat)
    (instruction : Instruction) (following : List UInt8) :
    disassembleFrom mode address (instruction.encode mode ++ following) =
      ⟨address, .known (instruction.reduced mode), instruction.encode mode⟩ ::
        disassembleFrom mode (address + instruction.size mode) following := by
  have payloadLength := instruction.length_payload mode
  rw [Instruction.encode, List.cons_append, disassembleFrom, Decoded.ofBytes_encode]
  simp only [Decoded.size, size_reduced, ← payloadLength, List.take_left, List.drop_left]

/-- Reading machine code shows its program and goes on behind it. -/
theorem disassembleFrom_machineCode_append (mode : AddressMode) (address : Nat)
    (program : List Instruction) (following : List UInt8) :
    disassembleFrom mode address (machineCode mode program ++ following) =
      programLines mode address program ++
        disassembleFrom mode (address + codeSize mode program) following := by
  induction program generalizing address with
  | nil => rfl
  | cons instruction program ih =>
    rw [machineCode_cons, List.append_assoc, disassembleFrom_encode_append, ih,
      programLines_cons, codeSize_cons, Nat.add_assoc, List.cons_append]

/-- Machine code is disassembled into the program that it was made from. -/
theorem disassembleFrom_machineCode (mode : AddressMode) (address : Nat)
    (program : List Instruction) :
    disassembleFrom mode address (machineCode mode program) =
      programLines mode address program := by
  have whole := disassembleFrom_machineCode_append mode address program []
  rw [disassembleFrom, List.append_nil, List.append_nil] at whole
  exact whole

theorem disassemble_machineCode (mode : AddressMode) (program : List Instruction)
    (fits : codeSize mode program ≤ romSize) :
    disassemble mode (machineCode mode program) = programLines mode 0 program := by
  rw [disassemble, List.take_of_length_le, disassembleFrom_machineCode]
  rw [length_machineCode]
  exact fits

end Breadboard
