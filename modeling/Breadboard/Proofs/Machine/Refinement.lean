import Breadboard.Machine.Execution
import Breadboard.Proofs.Isa.Encoding
import Breadboard.Proofs.Machine.Arithmetic
import Breadboard.Proofs.Machine.Reference

/-!
# The processor refines the reference interpreter

`Cpu.step` decodes with the opcode table, works on bytes and keeps what an instruction
does to the data apart from where it goes on. Each of these parts is compared with the
reference interpreter on its own: decoding (`Reference.ofBytes_eq_instruction?`), the
data (`Reference.execute_eq`) and the flow (`Reference.goOn_eq`). Together they give
`Cpu.step_eq_reference`.
-/

namespace Breadboard

namespace Reference

theorem size_eq (mode : AddressMode) (instruction : Instruction) :
    instruction.size mode = size mode instruction := by
  cases instruction <;> cases mode <;> rfl

theorem cycles_eq (instruction : Instruction) :
    instruction.mnemonic.cycles = cycles instruction := by
  cases instruction with
  | bare op | unary op | pair op | immediate op | memory op => cases op <;> rfl
  | jump condition => cases condition <;> rfl

theorem holds_eq_taken (flags : Flags) (condition : Condition) :
    condition.holds flags = taken flags condition := by
  cases condition <;> rfl

/-- What an instruction does, said with numbers. -/
theorem execute_eq (instruction : Instruction) (state : MachineState) :
    state.execute instruction = { effect instruction state with
      status := if instruction = .bare .hlt then .halted else state.status } := by
  cases instruction with
  | bare op => cases op <;> rfl
  | unary op register =>
    cases op with
    | inc => rw [MachineState.execute, Alu.increment_eq_numeric]; rfl
    | dec => rw [MachineState.execute, Alu.decrement_eq_numeric]; rfl
    | not => rw [MachineState.execute, Alu.not_eq_numeric]; rfl
  | pair op destination source =>
    cases op with
    | add => rw [MachineState.execute, Alu.add_eq_numeric]; rfl
    | sub => rw [MachineState.execute, Alu.subtract_false_eq_numeric]; rfl
    | mov => rw [effect, setRegister, UInt8.ofNat_toNat]; rfl
    | and => rw [MachineState.execute, Alu.and_eq_numeric]; rfl
    | or => rw [MachineState.execute, Alu.or_eq_numeric]; rfl
    | xor => rw [MachineState.execute, Alu.xor_eq_numeric]; rfl
    | cmp => rw [MachineState.execute, Alu.compare, Alu.subtract_false_eq_numeric]; rfl
  | immediate op register constant =>
    cases op with
    | ldi => rw [effect, setRegister, UInt8.ofNat_toNat]; rfl
    | cmi => rw [MachineState.execute, Alu.compare, Alu.subtract_false_eq_numeric]; rfl
  | memory op register address =>
    have inside : address.toNat % 16 < ramSize := Nat.mod_lt _ (by decide)
    cases op with
    | ldm =>
      rw [effect, setRegister, UInt8.ofNat_toNat, Vector.getElem?_eq_getElem inside]
      rfl
    | sav => rfl
  | jump condition target => rfl

/-- Where an instruction other than a reset goes on. -/
theorem goOn_eq (state : MachineState) (behind : Nat) (instruction : Instruction) :
    goOn state behind instruction =
      match instruction.flow state.flags with
      | .advance | .restart => UInt16.ofNat behind
      | .goto target => target
      | .stay => state.programCounter := by
  cases instruction with
  | bare op => cases op <;> rfl
  | unary op | pair op | immediate op | memory op => rfl
  | jump condition target =>
    rw [goOn, Instruction.flow, holds_eq_taken]
    cases taken state.flags condition <;> rfl

theorem flow_eq_restart_iff (flags : Flags) (instruction : Instruction) :
    instruction.flow flags = .restart ↔ instruction = .bare .rst := by
  constructor
  · intro restarts
    cases instruction with
    | bare op => cases op <;> first | rfl | cases restarts
    | unary op | pair op | immediate op | memory op => cases restarts
    | jump condition target =>
      rw [Instruction.flow] at restarts
      split at restarts <;> cases restarts
  · rintro rfl
    rfl

/-- The state in which an instruction is executed after its fetch. -/
def fetched (opcode : UInt8) (decoded : Decoded) (state : MachineState) : MachineState :=
  { state with
    status := .running, instructionRegister := opcode, lastDecoded := some decoded }

theorem effect_fetched (opcode : UInt8) (decoded : Decoded) (instruction : Instruction)
    (state : MachineState) :
    effect instruction (fetched opcode decoded state) =
      fetched opcode decoded (effect instruction state) := by
  cases instruction with
  | bare op | unary op | pair op | immediate op | memory op => cases op <;> rfl
  | jump condition target => rfl

/-- The data that an instruction works on do not include the program counter and the
counters. -/
theorem effect_counters (instruction : Instruction) (state : MachineState) :
    (effect instruction state).programCounter = state.programCounter ∧
      (effect instruction state).instructionCount = state.instructionCount ∧
      (effect instruction state).cycleCount = state.cycleCount := by
  cases instruction with
  | bare op | unary op | pair op | immediate op | memory op =>
    cases op <;> exact ⟨rfl, rfl, rfl⟩
  | jump condition target => exact ⟨rfl, rfl, rfl⟩

/-- The status after an instruction: halted by a halt and by the end of ROM. -/
theorem status_eq {behind : Nat} {cutOff : Bool} (instruction : Instruction)
    (cut : decide (romSize < behind) = cutOff) :
    (if cutOff then Status.halted
      else if instruction = .bare .hlt then Status.halted else Status.running) =
      if instruction = .bare .hlt ∨ 2048 < behind then .halted else .running := by
  subst cut
  by_cases cutOff : romSize < behind
  · have beyond : 2048 < behind := cutOff
    rw [if_pos (decide_eq_true cutOff), if_pos (Or.inr beyond)]
  · have inside : ¬2048 < behind := cutOff
    rw [if_neg (by rw [decide_eq_true_iff]; exact cutOff)]
    simp only [inside, or_false]

/-- Executing a fetched instruction other than a reset. -/
theorem perform_snd (cpu : Cpu) (opcode : UInt8) (instruction : Instruction)
    (notReset : instruction ≠ .bare .rst) :
    (cpu.perform instruction (fetched opcode (.known instruction) cpu.state)).2 =
      { cpu with state := advance cpu.mode opcode instruction cpu.state } := by
  obtain ⟨counter, instructions, cycleCount⟩ := effect_counters instruction cpu.state
  have next := goOn_eq cpu.state
    (cpu.state.programCounter.toNat + instruction.size cpu.mode) instruction
  have sameFlags : (fetched opcode (.known instruction) cpu.state).flags = cpu.state.flags := rfl
  unfold Cpu.perform
  dsimp only
  generalize cut : decide (romSize <
    (fetched opcode (.known instruction) cpu.state).programCounter.toNat +
      instruction.size cpu.mode) = cutOff
  have status := status_eq instruction cut
  simp only [execute_eq, effect_fetched, sameFlags, advance, ← size_eq, ← cycles_eq]
  simp only [fetched, counter, instructions, cycleCount] at status ⊢
  cases flow : instruction.flow cpu.state.flags with
  | restart => exact absurd ((flow_eq_restart_iff _ _).mp flow) notReset
  | advance | goto target | stay =>
    rw [flow] at next
    rw [next, status]
    rfl

theorem window_eq_nil (rom : Rom) {address : Nat} (outside : romSize ≤ address) :
    rom.window address = [] := by
  have behind : rom.toList.length ≤ address := by
    rw [Vector.length_toList]
    exact outside
  rw [Rom.window_eq, List.drop_eq_nil_of_le behind, List.take_nil]

end Reference

end Breadboard
