import Breadboard.Machine.Cpu

/-!
# Executing one instruction

What an instruction does to the data, `MachineState.execute`, is kept apart from where
execution goes on, `Instruction.flow`. `Cpu.step` joins them and adds what happens when
there is no instruction: a byte that is no opcode is stepped over, and the end of ROM
halts.
-/

namespace Breadboard

inductive Flow where
  | advance
  | goto (target : UInt16)
  /-- Nowhere: the program counter is kept. -/
  | stay
  /-- At the beginning, with everything cleared. -/
  | restart
deriving DecidableEq, Repr

namespace Instruction

/-- Where execution goes on, given the flags before the instruction. -/
def flow (flags : Flags) : Instruction → Flow
  | bare .hlt => .stay
  | bare .rst => .restart
  | jump condition target => if condition.holds flags then .goto target else .advance
  | bare .nop | bare .out | unary _ _ | pair _ _ _ | immediate _ _ _ | memory _ _ _ => .advance

/-- The address that the instruction jumps to, if it is a jump that is taken. -/
def jumpTarget? (flags : Flags) (instruction : Instruction) : Option UInt16 :=
  match instruction.flow flags with
  | .goto target => some target
  | .advance | .stay | .restart => none

end Instruction

namespace MachineState

def store (register : Register) (result : AluResult) (state : MachineState) : MachineState :=
  { state with registers := state.registers.write register result.value, flags := result.flags }

/-- What the instruction does to registers, flags, RAM, display and status. -/
def execute (instruction : Instruction) (state : MachineState) : MachineState :=
  let value (register : Register) : UInt8 := state.registers.read register
  match instruction with
  | .bare .nop | .bare .rst | .jump _ _ => state
  | .bare .out => { state with output := value .a, outputEnabled := true }
  | .bare .hlt => { state with status := .halted }
  | .unary .inc register => state.store register (Alu.increment (value register))
  | .unary .dec register => state.store register (Alu.decrement (value register))
  | .unary .not register => state.store register (Alu.not (value register))
  | .pair .add destination source =>
    state.store destination (Alu.add (value destination) (value source) false).toAluResult
  | .pair .sub destination source =>
    state.store destination (Alu.subtract (value destination) (value source) false).toAluResult
  | .pair .and destination source =>
    state.store destination (Alu.and (value destination) (value source))
  | .pair .or destination source =>
    state.store destination (Alu.or (value destination) (value source))
  | .pair .xor destination source =>
    state.store destination (Alu.xor (value destination) (value source))
  | .pair .mov destination source =>
    { state with registers := state.registers.write destination (value source) }
  | .pair .cmp destination source =>
    { state with flags := Alu.compare (value destination) (value source) }
  | .immediate .ldi register constant =>
    { state with registers := state.registers.write register constant }
  | .immediate .cmi register constant =>
    { state with flags := Alu.compare (value register) constant }
  | .memory .ldm register address =>
    { state with registers := state.registers.write register (state.ram.read address) }
  | .memory .sav register address =>
    { state with ram := state.ram.write address (value register) }

end MachineState

inductive Outcome where
  | idle
  /-- It halted, because the program counter is behind the end of ROM. -/
  | pastEnd
  | skipped (byte : UInt8)
  /-- It executed an instruction. `cutOff` says that the instruction's last bytes lie
  behind the end of ROM, in which case it halted afterwards. -/
  | executed (instruction : Instruction) (jumpedTo : Option UInt16) (cutOff : Bool)
deriving DecidableEq, Repr

namespace Outcome

def ran : Outcome → Bool
  | executed _ _ _ => true
  | idle | pastEnd | skipped _ => false

end Outcome

namespace Cpu

/-- Executes an instruction that was fetched from the program counter. `fetched` is
the state with the fetch recorded. -/
def perform (instruction : Instruction) (fetched : MachineState) (cpu : Cpu) : Outcome × Cpu :=
  let next := fetched.programCounter.toNat + instruction.size cpu.mode
  let cutOff : Bool := romSize < next
  let done := fetched.execute instruction
  let counted := { done with
    status := if cutOff then .halted else done.status
    instructionCount := done.instructionCount + 1
    cycleCount := done.cycleCount + instruction.mnemonic.cycles }
  let outcome := Outcome.executed instruction (instruction.jumpTarget? fetched.flags) cutOff
  match instruction.flow fetched.flags with
  | .advance =>
    (outcome, { cpu with state := { counted with programCounter := UInt16.ofNat next } })
  | .goto target => (outcome, { cpu with state := { counted with programCounter := target } })
  | .stay => (outcome, { cpu with state := counted })
  | .restart => (outcome, cpu.reset)

/-- **One step.** Reads what stands at the program counter and executes it. -/
def step (cpu : Cpu) : Outcome × Cpu :=
  let state := cpu.state
  if cpu.isHalted then (.idle, cpu)
  else
    match cpu.rom.window state.programCounter.toNat with
    | [] => (.pastEnd, { cpu with state := { state with status := .halted } })
    | opcode :: following =>
      let decoded := Decoded.ofBytes cpu.mode opcode following
      let fetched := { state with
        status := .running, instructionRegister := opcode, lastDecoded := some decoded }
      match decoded with
      | .unknown byte =>
        (.skipped byte,
          { cpu with state := { fetched with programCounter := state.programCounter + 1 } })
      | .known instruction => cpu.perform instruction fetched

end Cpu

end Breadboard
