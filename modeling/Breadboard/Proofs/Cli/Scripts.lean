import Breadboard.Cli.CommandScript

/-!
# Carrying scripts out

What a script that reads or writes a file does on a disk where that succeeds.
-/

namespace Breadboard

/-- The bytes that a text is written as. -/
def textBytes (text : String) : List UInt8 := text.toUTF8.data.toList

theorem eq_textBytes_of_fromUTF8? {content : List UInt8} {text : String}
    (read : String.fromUTF8? (ByteArray.mk content.toArray) = some text) :
    content = textBytes text := by
  rw [String.fromUTF8?] at read
  split at read
  · cases read
    rfl
  · cases read

theorem fromUTF8?_textBytes (text : String) :
    String.fromUTF8? (ByteArray.mk (textBytes text).toArray) = some text :=
  dif_pos text.isValidUTF8

theorem textBytes_injective : Function.Injective textBytes := by
  intro text other same
  rw [← Option.some_inj, ← fromUTF8?_textBytes text, same, fromUTF8?_textBytes]

namespace Script

variable {disk : Disk} {path : String}

theorem runOn_readingFile {content : List UInt8} (found : disk.read path = .ok content)
    (next : List UInt8 → Script) :
    (readingFile path next).runOn disk = (next content).runOn disk := by
  rw [readingFile, runOn, found]

theorem runOn_readingText {text : String} (found : disk.read path = .ok (textBytes text))
    (next : String → Script) : (readingText path next).runOn disk = (next text).runOn disk := by
  rw [readingText, runOn_readingFile found, fromUTF8?_textBytes]

/-- **A source text that is accepted** goes on as its image. -/
theorem runOn_assembling {source : String} (found : disk.read path = .ok (textBytes source))
    {options : AssemblyOptions} {image : Image} (success : assemble options source = .ok image)
    (next : Image → Script) :
    (assembling options path next).runOn disk = (next image).runOn disk := by
  rw [assembling, runOn_readingText found, success]

theorem runOn_assembling_of_error {source : String} {options : AssemblyOptions}
    {failure : CompileError} (found : disk.read path = .ok (textBytes source))
    (failed : assemble options source = .error failure) (next : Image → Script) :
    (assembling options path next).runOn disk =
      { failure? := some (.assembly failure), disk := disk } := by
  rw [assembling, runOn_readingText found, failed]
  rfl

theorem runOn_writingFile (content : List UInt8) (next : Script) :
    (writingFile path content next).runOn disk =
      match disk.write path content with
      | .ok written => next.runOn written
      | .error failure => { failure? := some (.file failure), disk := disk } := by
  rw [writingFile, runOn]
  cases disk.write path content <;> rfl

/-- A script that does not fail after a file was asked for has got it. -/
theorem exists_of_readingFile {next : List UInt8 → Script}
    (finished : ((readingFile path next).runOn disk).failure? = none) :
    ∃ content, disk.read path = .ok content ∧
      (readingFile path next).runOn disk = (next content).runOn disk := by
  cases found : disk.read path with
  | ok content => exact ⟨content, rfl, runOn_readingFile found next⟩
  | error failure =>
    rw [readingFile, runOn, found] at finished
    cases finished

theorem exists_of_readingText {next : String → Script}
    (finished : ((readingText path next).runOn disk).failure? = none) :
    ∃ text, disk.read path = .ok (textBytes text) ∧
      (readingText path next).runOn disk = (next text).runOn disk := by
  rw [readingText] at finished ⊢
  obtain ⟨content, found, goesOn⟩ := exists_of_readingFile finished
  rw [goesOn] at finished ⊢
  cases read : String.fromUTF8? (ByteArray.mk content.toArray) with
  | some text => exact ⟨text, eq_textBytes_of_fromUTF8? read ▸ found, rfl⟩
  | none =>
    rw [read] at finished
    cases finished

theorem exists_of_assembling {options : AssemblyOptions} {next : Image → Script}
    (finished : ((assembling options path next).runOn disk).failure? = none) :
    ∃ source image, disk.read path = .ok (textBytes source) ∧
      assemble options source = .ok image ∧
      (assembling options path next).runOn disk = (next image).runOn disk := by
  rw [assembling] at finished ⊢
  obtain ⟨source, found, goesOn⟩ := exists_of_readingText finished
  rw [goesOn] at finished ⊢
  cases success : assemble options source with
  | ok image => exact ⟨source, image, found, success, rfl⟩
  | error failure =>
    rw [success] at finished
    cases finished

/-- A script that does not fail after a file was to be written goes on with the file written. -/
theorem exists_of_writingFile {content : List UInt8} {next : Script}
    (finished : ((writingFile path content next).runOn disk).failure? = none) :
    ∃ written, disk.write path content = .ok written ∧
      (writingFile path content next).runOn disk = next.runOn written := by
  rw [runOn_writingFile] at finished ⊢
  cases done : disk.write path content with
  | ok written => exact ⟨written, rfl, rfl⟩
  | error failure =>
    rw [done] at finished
    cases finished

end Script

end Breadboard
