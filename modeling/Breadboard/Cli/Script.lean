import Breadboard.Cli.Disk
import Breadboard.Machine.Memory
import Breadboard.Source.Fault

/-!
# Scripts

A command is written down as a script: texts to print, files to read and write, and how
to go on once the answer is there. A script does nothing by itself. `Script.runOn`
carries it out on a disk in memory; carrying it out on real files is left to the program.
-/

namespace Breadboard

inductive Failure where
  | file (error : FileError)
  /-- A source file holds bytes that are no text. -/
  | notText
  | assembly (error : CompileError)
  | load (error : LoadError)
  /-- More bytes were stepped over in a run than are counted. -/
  | skipCountOverflow
  | unknownExtension
  | noExtension
  | nothingToWatch
deriving DecidableEq, Repr

namespace Failure

def message : Failure → String
  | file error => error.message
  | notText => "stream did not contain valid UTF-8"
  | assembly error => error.message
  | load error => error.message
  | skipCountOverflow => "attempt to add with overflow"
  | unknownExtension => "File has unknown extension. Exiting..."
  | noExtension => "File has no extension. Exiting..."
  | nothingToWatch => "File does not exist. Exiting..."

/-- Whether the command did not end by itself, but was broken off. -/
def breaksOff : Failure → Bool
  | skipCountOverflow => true
  | file _ | notText | assembly _ | load _ => false
  | unknownExtension | noExtension | nothingToWatch => false

/-- The line that a command ends with when it fails. -/
def line (failure : Failure) : String :=
  if failure.breaksOff then failure.message else "Error: " ++ failure.message

def exitCode (failure : Failure) : UInt32 := if failure.breaksOff then 101 else 1

end Failure

/-- A command as a series of questions to the outside and texts for it. -/
inductive Script where
  | finish
  | fail (failure : Failure)
  | print (text : String) (next : Script)
  | trace (text : String) (next : Script)
  | read (path : String) (next : Except FileError (List UInt8) → Script)
  | write (path : String) (content : List UInt8) (next : Except FileError Unit → Script)
  | find (path : String) (next : Bool → Script)
  /-- Goes on with `round` whenever the file changes, until interrupted. -/
  | watch (path : String) (round : Script)

structure Report where
  output : String := ""
  diagnostics : String := ""
  failure? : Option Failure := none
  disk : Disk
deriving DecidableEq, Repr

/-- The exit code of a command that was carried out. -/
def Report.exitCode (report : Report) : UInt32 :=
  match report.failure? with
  | some failure => failure.exitCode
  | none => 0

namespace Script

/-- Carries a script out on a disk that nobody else changes, so that there is never a
change to watch for. -/
def runOn (disk : Disk) : Script → Report
  | finish => { disk := disk }
  | fail failure => { failure? := some failure, disk := disk }
  | print text next =>
    let report := next.runOn disk
    { report with output := text ++ report.output }
  | trace text next =>
    let report := next.runOn disk
    { report with diagnostics := text ++ report.diagnostics }
  | read path next => (next (disk.read path)).runOn disk
  | write path content next =>
    match disk.write path content with
    | .ok written => (next (.ok ())).runOn written
    | .error failure => (next (.error failure)).runOn disk
  | find path next => (next (disk.holds path)).runOn disk
  | watch _ _ => { disk := disk }

def readingFile (path : String) (next : List UInt8 → Script) : Script :=
  read path fun answer =>
    match answer with
    | .ok content => next content
    | .error failure => fail (.file failure)

def readingText (path : String) (next : String → Script) : Script :=
  readingFile path fun content =>
    match String.fromUTF8? (ByteArray.mk content.toArray) with
    | some text => next text
    | none => fail .notText

def writingFile (path : String) (content : List UInt8) (next : Script) : Script :=
  write path content fun answer =>
    match answer with
    | .ok () => next
    | .error failure => fail (.file failure)

def writingText (path text : String) (next : Script) : Script :=
  writingFile path text.toUTF8.data.toList next

end Script

end Breadboard
