import Breadboard.Assembly.Options

/-!
# Commands

What the command line can ask for, with all choices made.
-/

namespace Breadboard

/-- The choices of every command that reads source texts or images. -/
structure ReadSettings where
  mode : AddressMode := .elevenBit
  /-- Which constants are accepted, and how bytes are shown. -/
  signedness : Signedness := .signed
deriving DecidableEq, Repr

namespace ReadSettings

def assembly (settings : ReadSettings) (padded : Bool) : AssemblyOptions :=
  ⟨settings.mode, settings.signedness, padded⟩

end ReadSettings

structure RunSettings where
  reading : ReadSettings := {}
  /-- Whether the report is kept short and plain. -/
  minimal : Bool := false
  limit : Nat := 10000
  /-- The ROM address that the program is copied to. -/
  start : Nat := 0
deriving DecidableEq, Repr

structure CompileSettings where
  reading : ReadSettings := {}
  /-- The image file, if it is not to be named after the source file. -/
  out? : Option String := none
  padded : Bool := false
  silent : Bool := false
deriving DecidableEq, Repr

inductive Command where
  | run (name : String) (settings : RunSettings)
  /-- Writes the image and the listing of a source text. -/
  | compile (name : String) (settings : CompileSettings)
  /-- Assembles a source text without writing anything. -/
  | check (name : String) (settings : ReadSettings)
  | disassemble (name : String) (mode : AddressMode)
  | watch (name : String) (settings : ReadSettings)
  | welcome
  | version
  | help
deriving DecidableEq, Repr

end Breadboard
