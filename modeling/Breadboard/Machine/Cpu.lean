import Breadboard.Isa.Decoded
import Breadboard.Machine.Alu
import Breadboard.Machine.Memory
import Breadboard.Machine.RegisterFile

/-!
# The processor

What a reset clears is one record, `MachineState`, whose default values are the cleared
state. Program memory and the width of jump addresses lie outside of it: a reset keeps
them.
-/

namespace Breadboard

/-- How far execution has come. -/
inductive Status where
  /-- Nothing was executed since the last reset. -/
  | ready
  | running
  /-- Nothing more is executed until a reset. -/
  | halted
deriving DecidableEq, Repr

/-- Everything that a reset clears. -/
structure MachineState where
  registers : RegisterFile := {}
  flags : Flags := {}
  ram : Ram := Ram.blank
  programCounter : UInt16 := 0
  instructionRegister : UInt8 := 0
  status : Status := .ready
  /-- The byte on the display lines. -/
  output : UInt8 := 0
  /-- Whether a byte was sent to the display. -/
  outputEnabled : Bool := false
  instructionCount : Nat := 0
  cycleCount : Nat := 0
  /-- What the latest step read from program memory. -/
  lastDecoded : Option Decoded := none
deriving DecidableEq, Repr

namespace MachineState

/-- The byte on the display, once one was sent there. -/
def latch (state : MachineState) : Option UInt8 :=
  if state.outputEnabled then some state.output else none

end MachineState

structure Cpu where
  mode : AddressMode
  rom : Rom := Rom.blank
  state : MachineState := {}
deriving DecidableEq, Repr

namespace Cpu

def isHalted (cpu : Cpu) : Bool :=
  cpu.state.status = .halted

def reset (cpu : Cpu) : Cpu :=
  { cpu with state := {} }

/-- Copies a program into program memory and resets. If the program does not fit, there
is no reset. -/
def load (bytes : List UInt8) (start : Nat) (cpu : Cpu) : Option LoadError × Cpu :=
  let (failure?, rom) := cpu.rom.load bytes start
  let written := { cpu with rom := rom }
  match failure? with
  | some failure => (some failure, written)
  | none => (none, written.reset)

end Cpu

end Breadboard
