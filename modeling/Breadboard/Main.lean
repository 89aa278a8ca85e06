import Breadboard.Cli.Arguments
import Breadboard.Cli.CommandScript

/-!
# The program

Reads the command line, carries out the script of the command on real files, and turns
its end into an exit code: that of its failure, or two for a command line that cannot be
read.
-/

namespace Breadboard

/-- The answer of the operating system, in the words of this library. Some calls give the
number of an error with a minus sign. -/
def FileError.ofSystem (error : IO.Error) : FileError :=
  match error with
  | .noFileOrDirectory .. => .notFound
  | .inappropriateType _ code _ =>
    let number := min code (0 - code)
    if number == 21 then .isDirectory
    else if number == 20 then .notDirectory
    else .other (toString error)
  | .invalidArgument _ code _ =>
    if min code (0 - code) == 36 then .nameTooLong else .other (toString error)
  | error => .other (toString error)

/-- Asks for something and takes the refusal as an answer. -/
def askSystem {α : Type} (question : IO α) : IO (Except FileError α) := do
  match ← question.toBaseIO with
  | .ok answer => return .ok answer
  | .error error => return .error (FileError.ofSystem error)

def readSystemFile (path : String) : IO (Except FileError (List UInt8)) :=
  askSystem do return (← IO.FS.readBinFile path).data.toList

/-- Waits until the content of a file is no longer the given one. -/
partial def awaitChange (path : String) (known : Except FileError (List UInt8)) :
    IO (Except FileError (List UInt8)) := do
  IO.sleep 500
  let current ← readSystemFile path
  let same :=
    match known, current with
    | .ok before, .ok now => before == now
    | .error _, .error _ => true
    | _, _ => false
  if same then awaitChange path known else return current

/-- Goes on with the answer whenever the content of a file has changed, while the answer
is no failure. -/
partial def onEveryChange (path : String) (known : Except FileError (List UInt8))
    (round : IO UInt32) : IO UInt32 := do
  let current ← awaitChange path known
  let code ← round
  if code == 0 then onEveryChange path current round else return code

/-- Carries a script out on real files and gives the exit code. -/
def Script.perform : Script → IO UInt32
  | finish => return 0
  | fail failure => do
    IO.eprintln failure.line
    return failure.exitCode
  | print text next => do
    IO.print text
    (← IO.getStdout).flush
    next.perform
  | trace text next => do
    IO.eprint text
    next.perform
  | read path next => do
    (next (← readSystemFile path)).perform
  | write path content next => do
    let bytes := ByteArray.mk content.toArray
    (next (← askSystem (IO.FS.writeBinFile path bytes))).perform
  | find path next => do
    let found :=
      match ← readSystemFile path with
      | .ok _ | .error .isDirectory | .error (.other _) => true
      | .error .notFound | .error .notDirectory | .error .nameTooLong => false
    (next found).perform
  | watch path round => do
    onEveryChange path (← readSystemFile path) round.perform

/-- Whether colours are wanted: if they are forced, or if the output is a terminal and
they are not declined. -/
def wantsColours : IO Bool := do
  let isOn (value? : Option String) : Bool := value?.any (· != "0")
  if isOn (← IO.getEnv "CLICOLOR_FORCE") then return true
  else if (← IO.getEnv "NO_COLOR").isSome then return false
  else if (← IO.getEnv "CLICOLOR") == some "0" then return false
  else (← IO.getStdout).isTty

/-- What the environment says about the outside. -/
def currentTerminal : IO Terminal := do
  return { coloured := ← wantsColours, traced := (← IO.getEnv "NIBBLER_TRACE") == some "1" }

end Breadboard

def main (arguments : List String) : IO UInt32 := do
  match Breadboard.readArguments arguments with
  | .ok command => (command.script (← Breadboard.currentTerminal)).perform
  | .error error =>
    IO.eprintln ("error: " ++ error.message ++ "\n\nFor more information, try '--help'.")
    return 2
