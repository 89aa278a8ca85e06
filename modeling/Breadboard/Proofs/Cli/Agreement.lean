import Breadboard.Proofs.Assembly.Faults
import Breadboard.Proofs.Cli.Paths
import Breadboard.Proofs.Cli.Running

/-!
# The commands agree

A source text is checked, compiled and run by one assembler, and whether the image is filled up
makes no difference to what is a fault (`assemble_eq_error_iff_of_padded`). So the commands fail
on the same texts with the same line. An image that was written is what a run reads back, for
the listing that is written after it goes to a file of its own (`read_of_compileScript`), and so
a source text runs like its image (`commands_agree`).
-/

namespace Breadboard

/-- The commands that assemble the source text of a file with the same choices for reading it. -/
inductive Assembles (name : String) (reading : ReadSettings) : Command → Prop
  | check : Assembles name reading (.check name reading)
  | compile (out? : Option String) (padded silent : Bool) :
    Assembles name reading (.compile name ⟨reading, out?, padded, silent⟩)
  | run (minimal : Bool) (limit start : Nat) :
    Assembles name reading (.run name ⟨reading, minimal, limit, start⟩)

section

variable {disk : Disk} (terminal : Terminal) {name source : String} {reading : ReadSettings}
  {command : Command}

/-- **A text with a fault** ends all of these commands with it, before anything is written. -/
theorem runOn_of_assembles (assembles : Assembles name reading command)
    (content : disk.read name = .ok (textBytes source))
    (extension : Path.extension? name = some "asm") {failure : CompileError}
    (failed : assemble (reading.assembly false) source = .error failure) :
    ((command.script terminal).runOn disk).failure? = some (.assembly failure) ∧
      ((command.script terminal).runOn disk).disk = disk := by
  cases assembles with
  | check =>
    rw [Command.script, checkScript, Script.runOn,
      Script.runOn_assembling_of_error content failed]
    exact ⟨rfl, rfl⟩
  | compile out? padded silent =>
    have failedToo : assemble (reading.assembly padded) source = .error failure :=
      (assemble_eq_error_iff_of_padded _ padded source failure).mpr failed
    rw [Command.script, compileScript]
    dsimp only
    rw [Script.runOn, Script.runOn_assembling_of_error content failedToo]
    exact ⟨rfl, rfl⟩
  | run minimal limit start =>
    rw [Command.script, runScript, extension]
    dsimp only
    rw [if_neg (by decide), if_pos rfl, Script.runOn,
      Script.runOn_assembling_of_error content failed]
    exact ⟨rfl, rfl⟩

theorem failure?_runOn_running (settings : RunSettings) (image : List UInt8)
    (failure : CompileError) :
    ((running terminal name settings image).runOn disk).failure? ≠ some (.assembly failure) := by
  rcases load : Cpu.load image settings.start { mode := settings.reading.mode } with
    ⟨_ | other, loaded⟩
  · rw [runOn_running load]
    dsimp only
    cases (loaded.observe settings.limit).overflowed <;> simp
  · rw [runOn_running_of_failed load]
    simp

/-- **A text without a fault** ends none of these commands with one. -/
theorem failure?_of_assembles (assembles : Assembles name reading command)
    (content : disk.read name = .ok (textBytes source))
    (extension : Path.extension? name = some "asm") {image : Image}
    (success : assemble (reading.assembly false) source = .ok image) (failure : CompileError) :
    ((command.script terminal).runOn disk).failure? ≠ some (.assembly failure) := by
  cases assembles with
  | check =>
    rw [Command.script, checkScript, Script.runOn, Script.runOn_assembling content success]
    intro failed
    cases failed
  | compile out? padded silent =>
    rw [Command.script, compileScript]
    dsimp only
    cases successToo : assemble (reading.assembly padded) source with
    | error other =>
      have failed : assemble (reading.assembly false) source = .error other :=
        (assemble_eq_error_iff_of_padded _ false source other).mpr successToo
      rw [success] at failed
      cases failed
    | ok filled =>
      rw [Script.runOn, Script.runOn_assembling content successToo, Script.runOn_writingFile]
      intro failed
      split at failed
      · rw [Script.runOn] at failed
        split at failed
        · cases failed
        · rw [Script.writingText, Script.runOn_writingFile] at failed
          split at failed <;> cases failed
      · cases failed
  | run minimal limit start =>
    rw [Command.script, runScript, extension]
    dsimp only
    rw [if_neg (by decide), if_pos rfl, Script.runOn, Script.runOn_assembling content success]
    exact failure?_runOn_running terminal _ _ failure

/-- **What a compilation leaves.** The image is read back as it was written and the source is
kept, whether the listing could be written after them or not. -/
theorem read_of_compileScript (settings : CompileSettings)
    (content : disk.read name = .ok (textBytes source))
    (extension : Path.extension? name = some "asm") {image : Image}
    (success : assemble (settings.reading.assembly settings.padded) source = .ok image)
    {out : String} (asked : settings.out? = some out)
    (imageExtension : Path.extension? out = some "bin") {written : Disk}
    (done : disk.write out image.bytes = .ok written) :
    let left := ((compileScript terminal name settings).runOn disk).disk
    left.read out = .ok image.bytes ∧ left.read name = .ok (textBytes source) := by
  intro left
  have stored := Disk.read_of_write done
  have kept : written.read name = .ok (textBytes source) := by
    apply Disk.read_of_write_of_extension? content done
    rw [extension, imageExtension]
    decide
  have ends : left = ((compileScript terminal name settings).runOn disk).disk := rfl
  rw [compileScript, asked, Option.getD_some, Script.runOn,
    Script.runOn_assembling content success, Script.runOn_writingFile, done] at ends
  dsimp only [Script.runOn] at ends
  split at ends
  next =>
    rw [ends]
    exact ⟨stored, kept⟩
  next =>
    rw [Script.writingText, Script.runOn_writingFile] at ends
    split at ends
    next overwritten doneAgain =>
      have listingExtension := Disk.extension?_of_write stored doneAgain (by decide) (by decide)
      have overwritten : left = overwritten := ends
      rw [overwritten]
      constructor
      · apply Disk.read_of_write_of_extension? stored doneAgain
        rw [imageExtension, listingExtension]
        decide
      · apply Disk.read_of_write_of_extension? kept doneAgain
        rw [extension, listingExtension]
        decide
    next =>
      rw [ends]
      exact ⟨stored, kept⟩

/-- The name of what is run stands at the end of the report only. -/
theorem exists_body_of_runReport (coloured : Bool) (settings : RunSettings)
    (seen : Cpu.Observation) :
    ∃ body, ∀ name, runReport coloured name settings seen =
      reportLine coloured .green "Running" "emitted binary" ++ body ++
        reportLine coloured .green "Completed" ("target " ++ name) := by
  have regroup (opening displayed skips stopped state closing : String) :
      opening ++ displayed ++ skips ++ stopped ++ state ++ closing =
        opening ++ (displayed ++ skips ++ stopped ++ state) ++ closing := by
    simp only [String.append_assoc]
  exact ⟨_, fun name => regroup _ _ _ _ _ _⟩

/-- **Two runs of one image** print the same but for the name at the end, or both are given up,
or both cannot load it. -/
theorem runOn_running_agree (disk left : Disk) (name other : String) (settings : RunSettings)
    (image : List UInt8) :
    let first := (running terminal name settings image).runOn disk
    let second := (running terminal other settings image).runOn left
    let line := reportLine (terminal.coloured && !settings.minimal) .green
    first.diagnostics = second.diagnostics ∧
    ((∃ failure, first.failure? = some (.load failure) ∧ second.failure? = some (.load failure) ∧
        first.output = "" ∧ second.output = "") ∨
      (first.failure? = none ∧ second.failure? = none ∧ ∃ body,
        first.output =
          line "Running" "emitted binary" ++ body ++ line "Completed" ("target " ++ name) ∧
        second.output =
          line "Running" "emitted binary" ++ body ++ line "Completed" ("target " ++ other)) ∨
      (first.failure? = some .skipCountOverflow ∧ second.failure? = some .skipCountOverflow ∧
        ∃ body, first.output = line "Running" "emitted binary" ++ body ∧
          second.output = line "Running" "emitted binary" ++ body)) := by
  intro first second line
  rcases load : Cpu.load image settings.start { mode := settings.reading.mode } with
    ⟨_ | failure, loaded⟩
  · have firstRan : first = _ := runOn_running load
    have secondRan : second = _ := runOn_running load
    rw [firstRan, secondRan]
    refine ⟨rfl, .inr ?_⟩
    dsimp only
    cases (loaded.observe settings.limit).overflowed with
    | true => exact .inr ⟨rfl, rfl, _, rfl, rfl⟩
    | false =>
      obtain ⟨body, reported⟩ :=
        exists_body_of_runReport (terminal.coloured && !settings.minimal) settings
          (loaded.observe settings.limit)
      exact .inl ⟨rfl, rfl, body, reported name, reported other⟩
  · have firstRefused : first = _ := runOn_running_of_failed load
    have secondRefused : second = _ := runOn_running_of_failed load
    rw [firstRefused, secondRefused]
    exact ⟨rfl, .inl ⟨failure, rfl, rfl, rfl, rfl⟩⟩

end

/-- **Check, compile and run agree.** They fail on the same source texts, those that the
assembler refuses, with its failure, which gives them the same exit code and the same line, and
then no file is made or changed. If a text is accepted and its image can be written where it is
asked for, then running the text, before or after that, and running the image come to the same
end. Either both end with the same failure to load the image, or their output is the same from
the line that announces the run up to the one that names the file, or up to its end if the run is
given up. -/
theorem commands_agree {disk : Disk} {name source : String}
    (extension : Path.extension? name = some "asm")
    (content : disk.read name = .ok (textBytes source)) (terminal : Terminal)
    (reading : ReadSettings) :
    let carriedOut (command : Command) (disk : Disk) : Report :=
      (command.script terminal).runOn disk
    let assembled := assemble (reading.assembly false) source
    (∀ command, Assembles name reading command → ∀ failure,
      ((carriedOut command disk).failure? = some (.assembly failure) ↔
        assembled = .error failure)) ∧
    (∀ command, Assembles name reading command → ∀ failure, assembled = .error failure →
      (carriedOut command disk).exitCode = 1 ∧
      (carriedOut command disk).failure?.map (·.line) = some ("Error: " ++ failure.message) ∧
      (carriedOut command disk).disk = disk) ∧
    ∀ image, assembled = .ok image → ∀ out silent written, Path.extension? out = some "bin" →
      disk.write out image.bytes = .ok written → ∀ minimal limit start,
      let settings : RunSettings := ⟨reading, minimal, limit, start⟩
      let left := (carriedOut (.compile name ⟨reading, some out, false, silent⟩) disk).disk
      let loaded := carriedOut (.run out settings) left
      let line := reportLine (terminal.coloured && !minimal) .green
      ∀ moment, moment = disk ∨ moment = left →
        let direct := carriedOut (.run name settings) moment
        direct.exitCode = loaded.exitCode ∧ direct.diagnostics = loaded.diagnostics ∧
        ((∃ failure, direct.failure? = some (.load failure) ∧
            loaded.failure? = some (.load failure)) ∨
          (direct.failure? = none ∧ loaded.failure? = none ∧ ∃ body,
            direct.output = terminal.fileLine "Assembling" name ++
              (line "Running" "emitted binary" ++ body ++ line "Completed" ("target " ++ name)) ∧
            loaded.output = loadingText terminal out reading.mode image.bytes ++
              (line "Running" "emitted binary" ++ body ++
                line "Completed" ("target " ++ out))) ∨
          (direct.failure? = some .skipCountOverflow ∧
            loaded.failure? = some .skipCountOverflow ∧ ∃ body,
            direct.output = terminal.fileLine "Assembling" name ++
              (line "Running" "emitted binary" ++ body) ∧
            loaded.output = loadingText terminal out reading.mode image.bytes ++
              (line "Running" "emitted binary" ++ body))) := by
  intro carriedOut assembled
  refine ⟨?_, ?_, ?_⟩
  · intro command assembles failure
    constructor
    · intro reported
      cases outcome : assembled with
      | ok image =>
        have other := failure?_of_assembles terminal assembles content extension outcome failure
        exact absurd reported other
      | error other =>
        have ended := (runOn_of_assembles terminal assembles content extension outcome).1
        cases ended.symm.trans reported
        rfl
    · intro failed
      exact (runOn_of_assembles terminal assembles content extension failed).1
  · intro command assembles failure failed
    obtain ⟨ended, unchanged⟩ := runOn_of_assembles terminal assembles content extension failed
    refine ⟨?_, ?_, unchanged⟩
    · rw [Report.exitCode, ended]
      rfl
    · rw [ended]
      rfl
  · intro image success out silent written imageExtension done minimal limit start settings left
      loaded line moment whichMoment direct
    obtain ⟨stored, kept⟩ := read_of_compileScript terminal ⟨reading, some out, false, silent⟩
      content extension success rfl imageExtension done
    have present : moment.read name = .ok (textBytes source) := by
      obtain rfl | rfl := whichMoment
      · exact content
      · exact kept
    have ran : direct = _ := @runOn_runScript _ _ _ settings _ _ (.source extension present success)
    have ranLoaded : loaded = _ :=
      @runOn_runScript _ _ _ settings _ _ (.binary imageExtension stored)
    obtain ⟨sameTrace, ending⟩ :=
      runOn_running_agree terminal moment left name out settings image.bytes
    rw [ran, ranLoaded, Report.exitCode, Report.exitCode]
    dsimp only
    obtain ⟨failure, direct, again, _⟩ | ⟨direct, again, body, output, outputAgain⟩ |
      ⟨direct, again, body, output, outputAgain⟩ := ending
    · rw [direct, again]
      exact ⟨rfl, sameTrace, .inl ⟨failure, rfl, rfl⟩⟩
    · rw [direct, again, output, outputAgain]
      exact ⟨rfl, sameTrace, .inr (.inl ⟨rfl, rfl, body, rfl, rfl⟩)⟩
    · rw [direct, again, output, outputAgain]
      exact ⟨rfl, sameTrace, .inr (.inr ⟨rfl, rfl, body, rfl, rfl⟩)⟩

/-- A mnemonic that does not exist stops the commands alike, and a program of one instruction
runs from its source text as it does from the image beside it. -/
theorem commands_agree_on_faulty_and_halting :
    let disk (source : String) : Disk := ⟨[(["p.asm"], textBytes source)]⟩
    let carriedOut (command : Command) (disk : Disk) : Report := (command.script {}).runOn disk
    let settings : RunSettings := { minimal := true }
    let left := (carriedOut (.compile "p.asm" { out? := some "q.bin" }) (disk "hlt\n")).disk
    (carriedOut (.compile "p.asm" { padded := true }) (disk "foo\n")).failure?.map (·.line) =
        some "Error: line 1: Unsupported instruction `FOO` in `foo`" ∧
      (carriedOut (.compile "p.asm" { padded := true }) (disk "foo\n")).disk = disk "foo\n" ∧
      ∃ body,
        (carriedOut (.run "p.asm" settings) left).output =
          "  Assembling target p.asm\n" ++ ("     Running emitted binary\n" ++ body ++
            "   Completed target p.asm\n") ∧
        (carriedOut (.run "q.bin" settings) left).output =
          "     Loading target q.bin\n   Inspected 1 bytes, 1 in use, 1 instructions\n" ++
            ("     Running emitted binary\n" ++ body ++ "   Completed target q.bin\n") := by
  intro disk carriedOut settings left
  have extension : Path.extension? "p.asm" = some "asm" := by decide
  have imageExtension : Path.extension? "q.bin" = some "bin" := by decide
  have content (source : String) : (disk source).read "p.asm" = .ok (textBytes source) := rfl
  have faulty : assemble {} "foo\n" = .error ⟨1, "foo", ⟨0, 3⟩, .unknownMnemonic "FOO"⟩ := by
    decide +kernel
  have halting : assemble {} "hlt\n" = .ok ⟨[0x20], [⟨1, 0, [0x20], "HLT"⟩], {}⟩ := by
    decide +kernel
  have done : (disk "hlt\n").write "q.bin" [0x20] =
      .ok ⟨[(["p.asm"], textBytes "hlt\n"), (["q.bin"], [0x20])]⟩ := by decide +kernel
  have opening : loadingText {} "q.bin" .elevenBit [0x20] =
      "     Loading target q.bin\n   Inspected 1 bytes, 1 in use, 1 instructions\n" := by
    decide +kernel
  obtain ⟨_, stopped, _⟩ := commands_agree extension (content "foo\n") {} {}
  obtain ⟨_, line, unchanged⟩ := stopped _ (.compile none true false) _ faulty
  obtain ⟨_, _, runs⟩ := commands_agree extension (content "hlt\n") {} {}
  obtain ⟨_, _, ending⟩ :=
    runs _ halting "q.bin" false _ imageExtension done true 10000 0 left (.inr rfl)
  refine ⟨line.trans (by decide +kernel), unchanged, ?_⟩
  have finished : (carriedOut (.run "p.asm" settings) left).failure? = none := by decide +kernel
  obtain ⟨failure, refused, _⟩ | ⟨_, _, body, direct, loaded⟩ | ⟨overflowed, _⟩ := ending
  · cases finished.symm.trans refused
  · refine ⟨body, direct, ?_⟩
    rw [← opening]
    exact loaded
  · cases finished.symm.trans overflowed

end Breadboard
