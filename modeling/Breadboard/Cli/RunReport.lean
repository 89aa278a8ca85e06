import Breadboard.Cli.Command
import Breadboard.Cli.Panel
import Breadboard.Machine.Trace

/-!
# What a run prints

A run is watched from outside. Of each step it is known whether it executed an instruction, and
the rest is read off the processor behind it: a byte was sent to the display if the latest
instruction is the one that does this, and a step that executed nothing went over a byte that is
no opcode unless the processor has halted. The report shows every byte that was sent to the
display, how many bytes were stepped over, whether the limit of steps was reached, and the state
at the end. The bytes that are stepped over are counted in a word of 32 bits, and a run in which
there are more of them than it can count is given up there.
-/

namespace Breadboard

namespace Cpu

/-- The byte that a step sent to the display, as seen behind it. -/
def displayedBehind? (ran : Bool) (behind : Cpu) : Option UInt8 :=
  if ran && behind.state.lastDecoded.bind (·.mnemonic?) == some (.bare .out) then
    behind.state.latch
  else none

/-- Whether a step went over a byte that is no opcode, as seen behind it. -/
def skippedBehind (ran : Bool) (behind : Cpu) : Bool := !ran && !behind.isHalted

/-- What was seen of a run. -/
structure Observation where
  /-- The bytes that were sent to the display, in order. -/
  displayed : List UInt8
  skipCount : Int32
  /-- How many steps were watched, with those that a halted processor did not take any more. -/
  stepCount : Nat
  final : Cpu
  /-- Whether the run was given up, because the count of the bytes that were stepped over was
  full when another one was. -/
  overflowed : Bool
deriving DecidableEq, Repr

/-- One more, if the word can hold it. -/
def countOne? (count : Int32) : Option Int32 :=
  if count = Int32.maxValue then none else some (count + 1)

/-- Takes steps until halted, but at most `limit` of them, and watches. `displayed` holds the
bytes that were displayed so far, the latest first. -/
def observeFrom (displayed : List UInt8) (skipCount : Int32) (stepCount : Nat) :
    Nat → Cpu → Observation
  | 0, cpu => ⟨displayed.reverse, skipCount, stepCount, cpu, false⟩
  | limit + 1, cpu =>
    if cpu.isHalted then ⟨displayed.reverse, skipCount, stepCount + (limit + 1), cpu, false⟩
    else
      match cpu.step with
      | (outcome, next) =>
        let shown := (displayedBehind? outcome.ran next).toList ++ displayed
        if skippedBehind outcome.ran next then
          match countOne? skipCount with
          | some more => observeFrom shown more (stepCount + 1) limit next
          | none => ⟨shown.reverse, skipCount, stepCount + 1, next, true⟩
        else observeFrom shown skipCount (stepCount + 1) limit next

/-- Takes steps until halted, but at most `limit` of them, and watches. -/
def observe (limit : Nat) (cpu : Cpu) : Observation :=
  observeFrom [] 0 0 limit cpu

/-- The trace of some steps, each line in a colour of its own where colours are wanted. -/
def traceText (coloured : Bool) (moments : List Moment) : String :=
  String.join (moments.flatMap fun moment =>
    moment.traceLines.map fun line => styledIf coloured Colour.blue.code (line ++ "\n"))

end Cpu

def displayedLine (coloured : Bool) (settings : RunSettings) (byte : UInt8) : String :=
  let number := settings.reading.signedness.write byte
  if settings.minimal then number ++ "\n"
  else reportLine coloured .cyan "Output" (styledIf coloured "1" number)

/-- What is printed while a run goes on. -/
def runProgress (coloured : Bool) (settings : RunSettings) (seen : Cpu.Observation) : String :=
  reportLine coloured .green "Running" "emitted binary" ++
    String.join (seen.displayed.map (displayedLine coloured settings))

/-- The report of a run of the program with the given name that came to its end. -/
def runReport (coloured : Bool) (name : String) (settings : RunSettings)
    (seen : Cpu.Observation) : String :=
  let skips :=
    if 0 < seen.skipCount then
      reportLine coloured .red "Warning"
        ("skipped " ++ decimal seen.skipCount.toNatClampNeg ++ " bytes of unknown opcodes")
    else ""
  let stopped :=
    if seen.final.isHalted then ""
    else
      reportLine coloured .red "Stopped"
        ("reached limit of " ++ decimal settings.limit ++ " steps")
  let state :=
    if settings.minimal then seen.final.state.plainText settings.reading.signedness
    else seen.final.state.panel settings.reading.signedness
  runProgress coloured settings seen ++ skips ++ stopped ++ state ++
    reportLine coloured .green "Completed" ("target " ++ name)

end Breadboard
