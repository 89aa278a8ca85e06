import Breadboard.Cli.Style
import Breadboard.Isa.Signedness
import Breadboard.Machine.Cpu

/-!
# The state of the machine on the screen

The panel shows registers, program counter, instruction register, flags, RAM and display
in a frame. The plain form has one short line for each value, without the instruction
register and RAM.
-/

namespace Breadboard

namespace MachineState

/-- The plain form. The display is left out until something was sent to it. -/
def plainText (signedness : Signedness) (state : MachineState) : String :=
  let registers := Register.all.map fun register =>
    register.text ++ " " ++ signedness.write (state.registers.read register) ++ "\n"
  let display :=
    match state.latch with
    | some byte => "OUT " ++ signedness.write byte ++ "\n"
    | none => ""
  String.join registers ++ "PC " ++ decimal state.programCounter.toNat ++ "\n" ++
    "FLAGS " ++ state.flags.text ++ "\n" ++ display

/-- A number in small hexadecimal, as it stands in the panel. -/
def panelHex (width number : Nat) : String := (hex width number).toLower

def leftBorder : String := dim "│"

/-- The right border of the frame and the end of the line. -/
def rightBorder : String := " " ++ dim "│" ++ "\n"

/-- The line of a register: in hexadecimal, unsigned, signed and in bits. -/
def registerLine (state : MachineState) (register : Register) : String :=
  let byte := state.registers.read register
  leftBorder ++ " " ++ bold register.text ++ "    0x" ++ panelHex 2 byte.toNat ++ "  " ++
    padLeft 4 (Signedness.unsigned.write byte) ++ "  " ++
    padLeft 5 (Signedness.signed.write byte) ++ "  " ++ bitGroups byte ++ rightBorder

def counterLine (state : MachineState) : String :=
  leftBorder ++ " " ++ bold "PC" ++ "  0x" ++ panelHex 4 state.programCounter.toNat ++ "  " ++
    bold "IR" ++ " 0x" ++ panelHex 2 state.instructionRegister.toNat ++ "  " ++ bold "F" ++ " " ++
    state.flags.text ++ rightBorder

def ramLine (heading : String) (cells : List UInt8) : String :=
  leftBorder ++ heading ++ String.join (cells.map fun byte => " " ++ panelHex 2 byte.toNat) ++
    "    " ++ rightBorder

/-- The line of the display. Its column is as wide as twenty-seven characters, those of
escape sequences included. -/
def displayLine (signedness : Signedness) (state : MachineState) : String :=
  let shown :=
    match state.latch with
    | some byte => padLeft 4 (signedness.write byte) ++ " (" ++ signedness.text ++ ")"
    | none => dim "────"
  leftBorder ++ " " ++ bold "OUT" ++ " " ++ padRight 27 shown ++ rightBorder

def panel (signedness : Signedness) (state : MachineState) : String :=
  let edge := String.ofList (List.replicate 32 '─')
  let cells := state.ram.toList
  dim ("┌" ++ edge ++ "┐") ++ "\n" ++
    escape "2" ++ "│       " ++ styled "3" "hex   uint    int   bits" ++ escape "2" ++ " │" ++
    escape "0" ++ "\n" ++
    String.join (Register.all.map state.registerLine) ++ state.counterLine ++
    ramLine (" " ++ bold "RAM") (cells.take 8) ++ ramLine "    " (cells.drop 8) ++
    state.displayLine signedness ++ dim ("└" ++ edge ++ "┘") ++ "\n"

end MachineState

end Breadboard
