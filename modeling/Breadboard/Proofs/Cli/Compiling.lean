import Breadboard.Proofs.Cli.Paths
import Breadboard.Proofs.Cli.Scripts

/-!
# What a compilation leaves

A compilation writes the image and then, unless it is silent, the listing, and both paths are
made by replacing extensions. So the two may lead to one file, and either of them to the source
file, and what was written last is what is left there (`exists_of_compileScript`). Which of
them do is a matter of the extension that the path had before (`runOn_compile`).
-/

namespace Breadboard

namespace CompileSettings

/-- Where the image goes. -/
def imagePath (settings : CompileSettings) (name : String) : String :=
  settings.out?.getD (Path.withExtension "bin" name)

/-- Where the listing goes. -/
def listingPath (settings : CompileSettings) (name : String) : String :=
  Path.withExtension "lst" (settings.imagePath name)

/-- The files that the listing takes. -/
def ListsTo (settings : CompileSettings) (name : String) (disk : Disk) (file : List String) :
    Prop :=
  settings.silent = false ∧ disk.LeadsTo (settings.listingPath name) file

end CompileSettings

section

variable {disk : Disk} {name : String} {settings : CompileSettings} {terminal : Terminal}

/-- **What a compilation writes**: the image, and over it the listing. -/
theorem exists_of_compileScript
    (finished :
      (((Command.compile name settings).script terminal).runOn disk).failure? = none) :
    let left := (((Command.compile name settings).script terminal).runOn disk).disk
    ∃ source image imageFile, disk.read name = .ok (textBytes source) ∧
      assemble (settings.reading.assembly settings.padded) source = .ok image ∧
      disk.LeadsTo (settings.imagePath name) imageFile ∧
      (settings.silent = false → ∃ file, settings.ListsTo name disk file) ∧
      (∀ directory, disk.hasDirectory directory = left.hasDirectory directory) ∧
      ∀ file,
        (settings.ListsTo name disk file →
          left.file? file = some (textBytes (renderListing image.listing))) ∧
        (¬ settings.ListsTo name disk file →
          left.file? file = if file = imageFile then some image.bytes else disk.file? file) := by
  intro left
  have ends : left = (((Command.compile name settings).script terminal).runOn disk).disk := rfl
  rw [Command.script, compileScript, Script.runOn] at finished ends
  obtain ⟨source, image, found, success, goesOn⟩ := Script.exists_of_assembling finished
  dsimp only at finished ends
  rw [goesOn] at finished ends
  obtain ⟨written, done, goesOn⟩ := Script.exists_of_writingFile finished
  rw [goesOn, Script.runOn] at finished ends
  dsimp only at finished ends
  obtain ⟨imageFile, leads, same, files⟩ := Disk.exists_leadsTo_of_write done
  refine ⟨source, image, imageFile, found, success, leads, ?_⟩
  cases silent : settings.silent with
  | true =>
    rw [silent, if_pos rfl] at ends
    rw [ends, Script.runOn]
    refine ⟨by rintro ⟨⟩, same, fun file => ⟨fun lists => ?_, fun _ => files file⟩⟩
    rw [CompileSettings.ListsTo, silent] at lists
    cases lists.1
  | false =>
    rw [silent, if_neg Bool.false_ne_true, Script.writingText] at finished ends
    obtain ⟨overwritten, doneAgain, goesOn⟩ := Script.exists_of_writingFile finished
    rw [goesOn, Script.runOn, Script.runOn] at ends
    obtain ⟨listingFile, leadsAgain, sameAgain, filesAgain⟩ :=
      Disk.exists_leadsTo_of_write doneAgain
    -- The image has been written by then, but no directory with it.
    have leadsBefore : disk.LeadsTo (settings.listingPath name) listingFile :=
      leadsAgain.of_hasDirectory fun directory => (same directory).symm
    rw [ends]
    refine ⟨fun _ => ⟨listingFile, silent, leadsBefore⟩,
      fun directory => (same directory).trans (sameAgain directory), fun file => ⟨?_, ?_⟩⟩
    · intro lists
      rw [filesAgain, if_pos (leadsBefore.unique lists.2)]
      rfl
    · intro notListed
      rw [filesAgain, if_neg, files]
      rintro rfl
      exact notListed ⟨silent, leadsBefore⟩

/-- The listing goes to a file exactly if the path that its own was made of has its extension. -/
theorem listsTo_iff (lists : settings.silent = false → ∃ file, settings.ListsTo name disk file)
    {path : String} {file : List String} (leads : disk.LeadsTo path file)
    (made : settings.listingPath name = Path.withExtension "lst" path) :
    settings.ListsTo name disk file ↔
      settings.silent = false ∧ Path.extension? path = some "lst" := by
  rw [CompileSettings.ListsTo, made]
  apply and_congr_right
  intro loud
  obtain ⟨listingFile, _, leadsAgain⟩ := lists loud
  rw [made] at leadsAgain
  rw [← leads.eq_withExtension_iff leadsAgain (by decide)]
  constructor
  · exact fun there => there.unique leadsAgain
  · rintro rfl
    exact leadsAgain

/-- If no path is asked for, then both paths are made of the name of the source file. -/
theorem paths_of_unnamed (unnamed : settings.out? = none) {sourceFile imageFile : List String}
    (leadsToSource : disk.LeadsTo name sourceFile)
    (leads : disk.LeadsTo (settings.imagePath name) imageFile) :
    Path.extension? (settings.imagePath name) = some "bin" ∧
      settings.listingPath name = Path.withExtension "lst" name ∧
      (imageFile = sourceFile ↔ Path.extension? name = some "bin") := by
  have named : settings.imagePath name = Path.withExtension "bin" name := by
    rw [CompileSettings.imagePath, unnamed, Option.getD_none]
  rw [CompileSettings.listingPath, named]
  rw [named] at leads
  obtain ⟨extension, again⟩ := leadsToSource.withExtension_eq leads (by decide) (by decide)
  exact ⟨extension, again "lst", leadsToSource.eq_withExtension_iff leads (by decide)⟩

/-- **What is left by a compilation that succeeds.** The image is at its path unless the listing
went there, which is so exactly if that path has the extension of a listing. The listing is at
its own. If no path is asked for, then the source is there unless its name has the extension of
an image, or of a listing that is written. In any case it is there if neither path leads to it,
and no other file has changed. -/
theorem runOn_compile
    (finished :
      (((Command.compile name settings).script terminal).runOn disk).failure? = none) :
    let left := (((Command.compile name settings).script terminal).runOn disk).disk
    ∃ source image, disk.read name = .ok (textBytes source) ∧
      assemble (settings.reading.assembly settings.padded) source = .ok image ∧
      let listing := textBytes (renderListing image.listing)
      left.read (settings.imagePath name) =
        .ok (if settings.silent = false ∧
            Path.extension? (settings.imagePath name) = some "lst" then listing
          else image.bytes) ∧
      (settings.silent = false → left.read (settings.listingPath name) = .ok listing) ∧
      (settings.out? = none →
        Path.extension? (settings.imagePath name) = some "bin" ∧
        left.read name =
          .ok (if settings.silent = false ∧ Path.extension? name = some "lst" then listing
            else if Path.extension? name = some "bin" then image.bytes
            else textBytes source)) ∧
      (¬ disk.SameFile (settings.imagePath name) name →
        (settings.silent = false → ¬ disk.SameFile (settings.listingPath name) name) →
        left.read name = .ok (textBytes source)) ∧
      ∀ file, ¬ disk.LeadsTo (settings.imagePath name) file → ¬ settings.ListsTo name disk file →
        left.file? file = disk.file? file := by
  intro left
  obtain ⟨source, image, imageFile, found, success, leads, lists, same, files⟩ :=
    exists_of_compileScript finished
  obtain ⟨sourceFile, leadsToSource, present⟩ := Disk.read_eq_ok_iff.mp found
  -- A path leads to the same file afterwards.
  have reads {path : String} {file : List String} {content : List UInt8}
      (leads : disk.LeadsTo path file) (present : left.file? file = some content) :
      left.read path = .ok content :=
    Disk.read_eq_ok_iff.mpr ⟨file, leads.of_hasDirectory same, present⟩
  refine ⟨source, image, found, success, ?_, ?_, ?_, ?_, ?_⟩
  · have taken := listsTo_iff lists leads rfl
    apply reads leads
    split
    next listed => exact (files imageFile).1 (taken.mpr listed)
    next kept => rw [(files imageFile).2 (mt taken.mp kept), if_pos rfl]
  · intro loud
    obtain ⟨listingFile, listed⟩ := lists loud
    exact reads listed.2 ((files listingFile).1 listed)
  · intro unnamed
    obtain ⟨extension, made, imaged⟩ := paths_of_unnamed unnamed leadsToSource leads
    have taken := listsTo_iff lists leadsToSource made
    refine ⟨extension, reads leadsToSource ?_⟩
    split
    next listed => exact (files sourceFile).1 (taken.mpr listed)
    next kept =>
      rw [(files sourceFile).2 (mt taken.mp kept), present]
      by_cases isImage : Path.extension? name = some "bin"
      · rw [if_pos isImage, if_pos (imaged.mpr isImage).symm]
      · rw [if_neg isImage, if_neg fun same => isImage (imaged.mp same.symm)]
  · intro notImage notListing
    have apart : sourceFile ≠ imageFile := fun same =>
      notImage ((leads.sameFile_iff leadsToSource).mpr same.symm)
    have notListed : ¬ settings.ListsTo name disk sourceFile := fun listed =>
      notListing listed.1 ⟨sourceFile, listed.2, leadsToSource⟩
    apply reads leadsToSource
    rw [(files sourceFile).2 notListed, if_neg apart, present]
  · intro file notImage notListed
    rw [(files file).2 notListed, if_neg]
    rintro rfl
    exact notImage leads

end

/-- The source is kept, and the image and the listing are put beside it. -/
theorem runOn_compile_of_halt :
    let disk : Disk := ⟨[(["p.asm"], textBytes "hlt\n")]⟩
    let report := ((Command.compile "p.asm" {}).script {}).runOn disk
    report.failure? = none ∧ report.disk.read "p.bin" = .ok [0x20] ∧
      report.disk.read "p.lst" = .ok (textBytes "0000  20        0010_0000  HLT\n") ∧
      report.disk.read "p.asm" = .ok (textBytes "hlt\n") := by
  intro disk report
  have finished : report.failure? = none := by decide +kernel
  obtain ⟨source, image, found, success, atImage, atListing, unnamed, _⟩ := runOn_compile finished
  have content : disk.read "p.asm" = .ok (textBytes "hlt\n") := by decide +kernel
  have halts : assemble {} "hlt\n" = .ok ⟨[0x20], [⟨1, 0, [0x20], "HLT"⟩], {}⟩ := by
    decide +kernel
  obtain rfl : "hlt\n" = source := textBytes_injective (Except.ok.inj (content.symm.trans found))
  obtain rfl := Except.ok.inj (halts.symm.trans success)
  have imagePath : CompileSettings.imagePath {} "p.asm" = "p.bin" := by decide +kernel
  have listingPath : CompileSettings.listingPath {} "p.asm" = "p.lst" := by decide +kernel
  have imageExtension : Path.extension? "p.bin" = some "bin" := by decide
  have sourceExtension : Path.extension? "p.asm" = some "asm" := by decide
  have listing : renderListing [⟨1, 0, [0x20], "HLT"⟩] =
      "0000  20        0010_0000  HLT\n" := by decide +kernel
  rw [imagePath, imageExtension, if_neg (by decide)] at atImage
  rw [listingPath, listing] at atListing
  have atSource := (unnamed rfl).2
  rw [sourceExtension, if_neg (by decide), if_neg (by decide)] at atSource
  exact ⟨finished, atImage, atListing rfl, atSource⟩

/-- A path that has the extension of a listing is taken by the listing, and the image is lost. -/
theorem compile_loses_image :
    let source := "hlt\n"
    let listing := "0000  20        0010_0000  HLT\n"
    let disk : Disk := ⟨[(["p.asm"], textBytes source)]⟩
    assemble {} source = .ok ⟨[0x20], [⟨1, 0, [0x20], "HLT"⟩], {}⟩ ∧
      ((Command.compile "p.asm" { out? := some "q.lst" }).script {}).runOn disk =
        { output := "  Assembling target p.asm\n    Finished emit binary, 1 bytes\n" ++
            "       Saved target q.lst\n\n" ++ listing ++ "\n       Saved target q.lst\n"
          disk := ⟨[(["p.asm"], textBytes source), (["q.lst"], textBytes listing)]⟩ } := by
  refine ⟨by decide +kernel, ?_⟩
  decide +kernel

end Breadboard
