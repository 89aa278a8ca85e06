import Breadboard.Machine.Execution

/-!
# Running a program

`Cpu.run` executes instructions until something else happens. `Cpu.steps` goes on over
bytes that are no opcodes and remembers each step together with the processor before
it, which is what a trace of a run is written from.
-/

namespace Breadboard

namespace Cpu

/-- Executes at most `limit` more instructions, after `executed` of them. -/
def runFrom (executed : Nat) : Nat → Cpu → Nat × Cpu
  | 0, cpu => (executed, cpu)
  | limit + 1, cpu =>
    if cpu.isHalted then (executed, cpu)
    else
      match cpu.step with
      | (outcome, next) =>
        if outcome.ran then runFrom (executed + 1) limit next else (executed, next)

/-- Executes until halted, until a step executes nothing, or until `limit`
instructions were executed. Gives their number. -/
def run (limit : Nat) (cpu : Cpu) : Nat × Cpu :=
  runFrom 0 limit cpu

/-- One step of a run: the processor before it and what it did. -/
structure Moment where
  before : Cpu
  outcome : Outcome

/-- Takes steps until halted, but at most `limit` of them. `earlier` holds the steps
taken so far, the latest first. -/
def stepsFrom (earlier : List Moment) : Nat → Cpu → List Moment
  | 0, _ => earlier.reverse
  | limit + 1, cpu =>
    if cpu.isHalted then earlier.reverse
    else
      match cpu.step with
      | (outcome, next) => stepsFrom (⟨cpu, outcome⟩ :: earlier) limit next

/-- The steps until halted, but at most `limit` of them. -/
def steps (limit : Nat) (cpu : Cpu) : List Moment :=
  stepsFrom [] limit cpu

end Cpu

end Breadboard
