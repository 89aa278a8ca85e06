import Breadboard.Machine.Run
import Breadboard.Text.Column

/-!
# Traces

The lines that a trace prints for a step. They show registers and flags as they were
before the step.
-/

namespace Breadboard

namespace Cpu.Moment

/-- The lines of the step, in order. -/
def traceLines (moment : Cpu.Moment) : List String :=
  let state := moment.before.state
  let address := hex 4 state.programCounter.toNat
  match moment.outcome with
  | .idle => []
  | .pastEnd => ["Fetch at 0x" ++ address ++ " is past the end of ROM, halting."]
  | .skipped byte =>
    ["Unknown opcode 0x" ++ hex 2 byte.toNat ++ " at 0x" ++ address ++ ", skipping."]
  | .executed instruction jumpedTo cutOff =>
    let executing :=
      address ++ "  " ++ padRight 12 instruction.text ++ " " ++ state.registers.text ++ "  " ++
        state.flags.text
    let taken :=
      match jumpedTo with
      | some target => ["      taken -> 0x" ++ hex 4 target.toNat]
      | none => []
    let halting :=
      if cutOff then
        ["Instruction at 0x" ++ address ++ " is cut off by the end of ROM, halting."]
      else []
    executing :: taken ++ halting

end Cpu.Moment

end Breadboard
