import Breadboard.Proofs.Machine.Step
import Breadboard.Proofs.Isa.MachineCode

/-!
# Running machine code

A processor whose program memory holds the machine code of a program from end to end stays
on the boundaries between its instructions, if the jumps of the program go to such
boundaries. At a boundary it executes the instruction that starts there
(`OnProgram.step_eq_handle`), and behind the last instruction program memory ends.
-/

namespace Breadboard

/-- Only a jump goes on at an address of its own. -/
theorem Instruction.exists_eq_jump_of_flow {flags : Flags} {instruction : Instruction}
    {target : UInt16} (flow : instruction.flow flags = .goto target) :
    ∃ condition, instruction = .jump condition target := by
  cases instruction with
  | bare op => cases op <;> cases flow
  | unary | pair | immediate | memory => cases flow
  | jump condition own =>
    rw [Instruction.flow] at flow
    split at flow
    · cases flow
      exact ⟨condition, rfl⟩
    · cases flow

/-- The address is one at which an instruction of a program starts or the program ends. -/
def OnBoundary (mode : AddressMode) (program : List Instruction) (address : Nat) : Prop :=
  ∃ front back, program = front ++ back ∧ address = codeSize mode front

/-- Programs whose operands fit into their encodings and whose jumps go to boundaries. -/
structure Closed (mode : AddressMode) (program : List Instruction) : Prop where
  inRange : ∀ instruction ∈ program, instruction.InRange mode
  targets : ∀ condition target, .jump condition target ∈ program →
    OnBoundary mode program target.toNat

/-- **A processor on the machine code of a program.** -/
structure OnProgram (mode : AddressMode) (program : List Instruction) (cpu : Cpu) : Prop where
  sameMode : cpu.mode = mode
  memory : cpu.rom.toList = machineCode mode program
  boundary : OnBoundary mode program cpu.state.programCounter.toNat

namespace OnProgram

variable {mode : AddressMode} {program front back : List Instruction} {instruction : Instruction}
  {cpu : Cpu}

/-- Program memory is as large as the program. -/
theorem codeSize_eq (onProgram : OnProgram mode program cpu) : codeSize mode program = romSize := by
  rw [← length_machineCode, ← onProgram.memory, Vector.length_toList]

/-- At a boundary, the instruction that starts there is executed as a whole. -/
theorem step_eq_handle (onProgram : OnProgram mode program cpu) (closed : Closed mode program)
    (active : cpu.isHalted = false) (split : program = front ++ instruction :: back)
    (here : cpu.state.programCounter.toNat = codeSize mode front) :
    cpu.step = cpu.handle instruction.opcode (.known instruction) ∧
      cpu.step.1 = .executed instruction (instruction.jumpTarget? cpu.state.flags) false := by
  have inRange : instruction.InRange cpu.mode := by
    rw [onProgram.sameMode]
    apply closed.inRange
    rw [split]
    exact List.mem_append_right _ List.mem_cons_self
  have bytes : cpu.rom.toList.drop cpu.state.programCounter.toNat =
      instruction.encode cpu.mode ++ machineCode mode back := by
    rw [onProgram.memory, split, machineCode_append, here, ← length_machineCode, List.drop_left,
      machineCode_cons, onProgram.sameMode]
  obtain ⟨step, outcome, _⟩ := Cpu.step_of_encode active inRange bytes
  exact ⟨step, outcome⟩

/-- The address behind an instruction is not truncated. -/
theorem toNat_behind (onProgram : OnProgram mode program cpu)
    (split : program = front ++ instruction :: back)
    (here : cpu.state.programCounter.toNat = codeSize mode front) :
    (UInt16.ofNat (cpu.state.programCounter.toNat + instruction.size cpu.mode)).toNat =
      codeSize mode front + instruction.size mode := by
  have total := onProgram.codeSize_eq
  rw [split, codeSize_append, codeSize_cons] at total
  rw [here, onProgram.sameMode]
  apply toNat_ofNat_of_le_romSize
  omega

/-- **What a step does on a program.** It does nothing if the processor is halted, it halts
at the end of program memory, and otherwise it executes the instruction that starts at the
program counter. -/
theorem step_cases (onProgram : OnProgram mode program cpu) (closed : Closed mode program) :
    (cpu.isHalted = true ∧ cpu.step = (.idle, cpu)) ∨
    (cpu.state.programCounter.toNat = romSize ∧
      cpu.step = (.pastEnd, { cpu with state := { cpu.state with status := .halted } })) ∨
    ∃ front instruction back, program = front ++ instruction :: back ∧
      cpu.state.programCounter.toNat = codeSize mode front ∧
      cpu.step = cpu.handle instruction.opcode (.known instruction) ∧
      cpu.step.1 = .executed instruction (instruction.jumpTarget? cpu.state.flags) false := by
  by_cases halted : cpu.isHalted = true
  · exact .inl ⟨halted, Cpu.step_eq_idle halted⟩
  · have active : cpu.isHalted = false := by simpa using halted
    obtain ⟨front, back, split, here⟩ := onProgram.boundary
    cases back with
    | nil =>
      have atEnd : cpu.state.programCounter.toNat = romSize := by
        rw [here, ← onProgram.codeSize_eq, split, List.append_nil]
      exact .inr (.inl ⟨atEnd, Cpu.step_eq_pastEnd active (Nat.le_of_eq atEnd.symm)⟩)
    | cons instruction back =>
      exact .inr (.inr ⟨front, instruction, back, split, here,
        onProgram.step_eq_handle closed active split here⟩)

/-- An instruction goes on at a boundary. -/
theorem onBoundary_handle (onProgram : OnProgram mode program cpu) (closed : Closed mode program)
    (split : program = front ++ instruction :: back)
    (here : cpu.state.programCounter.toNat = codeSize mode front) :
    OnBoundary mode program
      (cpu.handle instruction.opcode (.known instruction)).2.state.programCounter.toNat := by
  rw [Cpu.programCounter_handle]
  dsimp only
  cases flow : instruction.flow cpu.state.flags with
  | advance =>
    refine ⟨front ++ [instruction], back, by rw [split, List.append_assoc]; rfl, ?_⟩
    rw [onProgram.toNat_behind split here, codeSize_append, codeSize_cons, codeSize_nil,
      Nat.add_zero]
  | goto target =>
    obtain ⟨condition, rfl⟩ := instruction.exists_eq_jump_of_flow flow
    apply closed.targets condition target
    rw [split]
    exact List.mem_append_right _ List.mem_cons_self
  | stay => exact onProgram.boundary
  | restart => exact ⟨[], program, rfl, rfl⟩

/-- A step leads from boundary to boundary. -/
theorem step_snd (onProgram : OnProgram mode program cpu) (closed : Closed mode program) :
    OnProgram mode program cpu.step.2 := by
  rcases onProgram.step_cases closed with ⟨_, step⟩ | ⟨_, step⟩ |
    ⟨front, instruction, back, split, here, step, _⟩
  · rw [step]
    exact onProgram
  · rw [step]
    exact ⟨onProgram.sameMode, onProgram.memory, onProgram.boundary⟩
  · obtain ⟨keepsMode, keepsRom⟩ := cpu.handle_frame instruction.opcode (.known instruction)
    rw [step]
    refine ⟨keepsMode.trans onProgram.sameMode, ?_, onProgram.onBoundary_handle closed split here⟩
    rw [keepsRom]
    exact onProgram.memory

/-- A run stays on boundaries. -/
theorem after (onProgram : OnProgram mode program cpu) (closed : Closed mode program)
    (count : Nat) : OnProgram mode program (cpu.after count) := by
  induction count with
  | zero => exact onProgram
  | succ count ih =>
    rw [Cpu.after_succ]
    exact ih.step_snd closed

end OnProgram

end Breadboard
