import Breadboard.Assembly.Draft
import Breadboard.Cli.Path
import Breadboard.Cli.RunReport
import Breadboard.Cli.Script
import Breadboard.Image.Inspection

/-!
# The commands as scripts

Every command says first what it is about to do, so that this is on the screen when it
fails. Compilation names its files after the source file unless told otherwise.
-/

namespace Breadboard

structure Terminal where
  coloured : Bool := false
  traced : Bool := false
deriving DecidableEq, Repr

namespace Terminal

def line (terminal : Terminal) (colour : Colour) (heading text : String) : String :=
  reportLine terminal.coloured colour heading text

def fileLine (terminal : Terminal) (heading name : String) : String :=
  terminal.line .green heading ("target " ++ name)

def issueLines (terminal : Terminal) (issues : List ImageIssue) : String :=
  String.join (issues.map fun issue => terminal.line .red "Warning" issue.message)

end Terminal

def assembling (options : AssemblyOptions) (name : String) (next : Image → Script) : Script :=
  .readingText name fun source =>
    match assemble options source with
    | .ok image => next image
    | .error failure => .fail (.assembly failure)

/-- Runs an image and reports on it, unless the run is given up. A short report has no
colours. -/
def running (terminal : Terminal) (name : String) (settings : RunSettings) (image : List UInt8) :
    Script :=
  let cpu : Cpu := { mode := settings.reading.mode }
  match cpu.load image settings.start with
  | (some failure, _) => .fail (.load failure)
  | (none, loaded) =>
    let coloured := terminal.coloured && !settings.minimal
    let seen := loaded.observe settings.limit
    let report : Script :=
      if seen.overflowed then .print (runProgress coloured settings seen) (.fail .skipCountOverflow)
      else .print (runReport coloured name settings seen) .finish
    if terminal.traced then .trace (Cpu.traceText coloured (loaded.steps seen.stepCount)) report
    else report

/-- Runs a file, which is a source text or an image as its extension says. -/
def runScript (terminal : Terminal) (name : String) (settings : RunSettings) : Script :=
  match Path.extension? name with
  | none => .fail .noExtension
  | some extension =>
    if extension = "bin" then
      .print (terminal.fileLine "Loading" name) <|
        .readingFile name fun image =>
          let found := inspect settings.reading.mode image
          let summary :=
            decimal found.size ++ " bytes, " ++ decimal found.used ++ " in use, " ++
              decimal found.instructions ++ " instructions"
          .print (terminal.line .cyan "Inspected" summary ++ terminal.issueLines found.issues) <|
            running terminal name settings image
    else if extension = "asm" then
      .print (terminal.fileLine "Assembling" name) <|
        assembling (settings.reading.assembly false) name fun image =>
          running terminal name settings image.bytes
    else .fail .unknownExtension

/-- Writes the image of a source text and, unless told otherwise, its listing. -/
def compileScript (terminal : Terminal) (name : String) (settings : CompileSettings) : Script :=
  let imageName := settings.out?.getD (Path.withExtension "bin" name)
  let listingName := Path.withExtension "lst" imageName
  .print (terminal.fileLine "Assembling" name) <|
    assembling (settings.reading.assembly settings.padded) name fun image =>
      .writingFile imageName image.bytes <|
        .print (terminal.line .green "Finished"
            ("emit binary, " ++ decimal image.bytes.length ++ " bytes") ++
          terminal.fileLine "Saved" imageName) <|
          if settings.silent then .finish
          else
            let listing := renderListing image.listing
            .writingText listingName listing <|
              .print ("\n" ++ listing ++ "\n" ++ terminal.fileLine "Saved" listingName) .finish

def checkScript (terminal : Terminal) (name : String) (settings : ReadSettings) : Script :=
  .print (terminal.fileLine "Checking" name) <|
    assembling (settings.assembly false) name fun image =>
      let success :=
        terminal.line .green "Success"
          ("no errors found! " ++ decimal image.bytes.length ++ " bytes, " ++
            decimal image.symbols.size ++ " labels")
      let labels := image.symbols.entries.map fun (label, address) =>
        terminal.line .cyan "Label" (label ++ " at 0x" ++ hex 4 address)
      .print (success ++ String.join labels) .finish

/-- Shows the instructions of an image. The padding at its end is only counted. -/
def disassembleScript (terminal : Terminal) (name : String) (mode : AddressMode) : Script :=
  .print (terminal.fileLine "Decoding" name) <|
    .readingFile name fun image =>
      let found := inspect mode image
      let program := withoutPadding image
      let lines := (disassemble mode program).map fun line => line.text ++ "\n"
      let summary :=
        decimal found.instructions ++ " instructions, " ++
          decimal (image.length - program.length) ++ " bytes of padding"
      .print (terminal.issueLines found.issues ++ "\n" ++ String.join lines ++ "\n" ++
        terminal.line .green "Finished" summary) .finish

def clearScreen : String := "\x1b[2J\x1b[2;1H"

/-- Checks a source text whenever its file changes. A fault is shown and does not end
the watch. -/
def watchScript (terminal : Terminal) (name : String) (settings : ReadSettings) : Script :=
  let head := clearScreen ++ terminal.fileLine "Watching" name
  let help := terminal.line .cyan "Help" "press CTRL+C to exit"
  let round : Script :=
    .print (head ++ terminal.line .green "Re-checking" "file change detected" ++ help) <|
      .readingText name fun source =>
        match assemble (settings.assembly false) source with
        | .ok _ => .print (terminal.line .green "Success" "no errors found!") .finish
        | .error failure => .print ("\n" ++ failure.message ++ "\n") .finish
  .find name fun found =>
    if found then .print (head ++ help) (.watch name round) else .fail .nothingToWatch

def versionNumber : String := "0.1.0"

def logo : String :=
  "\n             _ _     _     _\n" ++
  "  _ __  (_) |__ | |__ | | ___ _ __\n" ++
  " | '_ \\ | | '_ \\| '_ \\| |/ _ \\ '__|\n" ++
  " | | | || | |_) | |_) | |  __/ |\n" ++
  " |_| |_||_|_.__/|_.__/|_|\\___|_|"

/-- What is printed when nothing is asked for. -/
def welcomeText (terminal : Terminal) : String :=
  "\n~ nibbler v" ++ versionNumber ++ " ~\n" ++ styledIf terminal.coloured "1;33" logo ++ "\n\n" ++
    "Welcome to nibbler, a toolchain for a nibble-encoded 8-bit computer:\n" ++
    "assembler, disassembler and emulator in one binary.\n" ++
    "Please use `-h` or `--help` to access the usage instructions and documentation.\n\n"

def helpText : String :=
  "Usage: nibbler [FILE] [COMMAND]\n\n" ++
  "Commands:\n" ++
  "  run <FILE>      Run an `.asm` or `.bin` file [-m] [--max N] [--start ADDRESS]\n" ++
  "  compile <FILE>  Write a `.bin` image and an `.lst` listing [-o FILE] [-p] [-s]\n" ++
  "  check <FILE>    Assemble an `.asm` file without writing anything\n" ++
  "  disasm <FILE>   Print the instructions of a `.bin` file\n" ++
  "  watch <FILE>    Check an `.asm` file whenever it changes\n\n" ++
  "Options:\n" ++
  "  --eight-bit     Use single byte jump targets\n" ++
  "  -u, --unsigned  Treat constants and output as unsigned\n" ++
  "  -h, --help      Print help\n" ++
  "  -V, --version   Print version\n"

def Command.script (terminal : Terminal) : Command → Script
  | run name settings => runScript terminal name settings
  | compile name settings => compileScript terminal name settings
  | check name settings => checkScript terminal name settings
  | disassemble name mode => disassembleScript terminal name mode
  | watch name settings => watchScript terminal name settings
  | welcome => .print (welcomeText terminal) .finish
  | version => .print ("nibbler " ++ versionNumber ++ "\n") .finish
  | help => .print helpText .finish

end Breadboard
