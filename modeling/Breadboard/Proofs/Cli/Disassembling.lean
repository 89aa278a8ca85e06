import Breadboard.Proofs.Assembly.Disassembly
import Breadboard.Proofs.Cli.Scripts
import Breadboard.Proofs.Image.Padding

/-!
# What is printed of an image

The disassembly of a file that holds an assembled image shows every instruction of the source
text at its address, but where the code ends in a byte that looks like padding, the last
instruction is shown without that byte and the byte is counted as padding
(`runOn_disassemble`). Nothing else is ever taken for padding, so the number of
instructions is right in any case.
-/

namespace Breadboard

/-- What is printed of an image: what is to be said about it, the lines that are shown, and how
many instructions and how many bytes of padding there are. -/
def disassemblyText (terminal : Terminal) (name : String) (image : List UInt8)
    (shown : List DisassemblyLine) (instructions padding : Nat) : String :=
  terminal.fileLine "Decoding" name ++ terminal.issueLines (issuesOf image) ++ "\n" ++
    String.join (shown.map fun line => line.text ++ "\n") ++ "\n" ++
    terminal.line .green "Finished"
      (decimal instructions ++ " instructions, " ++ decimal padding ++ " bytes of padding")

theorem runOn_disassembleScript {disk : Disk} {name : String} {image : List UInt8}
    (content : disk.read name = .ok image) (terminal : Terminal) (mode : AddressMode) :
    (disassembleScript terminal name mode).runOn disk =
      let shown := disassemble mode (withoutPadding image)
      { output := disassemblyText terminal name image shown
          (shown.countP (!·.decoded.isUnknown)) (image.length - (withoutPadding image).length)
        disk := disk } := by
  rw [disassembleScript, Script.runOn, Script.runOn_readingFile content]
  simp only [Script.runOn, disassemblyText, inspect, String.append_assoc, String.append_empty]

/-- **The disassembly of an assembled file.** It has one line for each instruction of the source
text that was assembled, in order. Unless the last instruction is a reset, what it shows depends
on the last byte of the code. If that does not look like padding, then each line shows the
address and the bytes of its listing entry and the instruction that is meant, and exactly the
bytes that the image was filled up with are counted as padding. If it does look like padding,
then this is so for all instructions but the last one; of that one the last byte is counted as
padding too and is read as zero, which is another instruction. -/
theorem runOn_disassemble {options : AssemblyOptions} {source : String} {image : Image}
    (success : assemble options source = .ok image) {disk : Disk} {name : String}
    (content : disk.read name = .ok image.bytes) (terminal : Terminal) :
    ∃ lines program fill, readSource source = .ok lines ∧
      Assembled options lines program image ∧
      image.bytes = machineCode options.mode program ++ List.replicate fill padByte ∧
      (program.getLast? ≠ some (.bare .rst) →
        ∃ shown padding,
          ((Command.disassemble name options.mode).script terminal).runOn disk =
            { output :=
                disassemblyText terminal name image.bytes shown program.length padding
              disk := disk } ∧
          ((machineCode options.mode program).getLast? ≠ some padByte →
            padding = fill ∧ shown.map (·.decoded) = program.map .known ∧
            List.Forall₂ (fun line entry => line.address = entry.address ∧ line.raw = entry.bytes)
              shown (image.listing.filter (!·.bytes.isEmpty))) ∧
          ((machineCode options.mode program).getLast? = some padByte →
            padding = fill + 1 ∧ ∃ front last, program = front ++ [last] ∧
              last.curtailed options.mode ≠ last ∧
              shown = programLines options.mode 0 front ++
                [⟨codeSize options.mode front, .known (last.curtailed options.mode),
                  (last.encode options.mode).dropLast⟩])) := by
  obtain ⟨lines, program, read, assembled⟩ := assembled_of_assemble success
  have resolves := assembled.resolved
  obtain ⟨fill, bytes, _⟩ := assembled.bytes
  refine ⟨lines, program, fill, read, assembled, bytes, fun notReset => ?_⟩
  have printed := runOn_disassembleScript content terminal options.mode
  rw [bytes] at printed ⊢
  rcases disassemble_withoutPadding assembled.codeSize_le resolves.target_lt notReset
    fill with ⟨code, padding, shown⟩ | ⟨code, padding, front, last, rfl, another, shown⟩
  · rw [shown, padding] at printed
    dsimp only at printed
    rw [countP_programLines] at printed
    refine ⟨_, fill, printed, fun _ => ⟨rfl, ?_, ?_⟩, fun ends => absurd ends code⟩
    · rw [map_decoded_programLines resolves.inRange]
    · rw [assembled.listing]
      exact resolves.forall₂_programLines 0
  · rw [shown, padding] at printed
    dsimp only at printed
    rw [List.countP_append, countP_programLines] at printed
    rw [List.length_append]
    exact ⟨_, fill + 1, printed, fun ends => absurd code ends,
      fun _ => ⟨rfl, front, last, rfl, another, rfl⟩⟩

/-- A constant in front of the end is not cut. -/
theorem runOn_disassemble_of_constant :
    let source := "ldi a 255\nhlt"
    let image : Image :=
      ⟨[0x04, 0xFF, 0x20], [⟨1, 0, [0x04, 0xFF], "LDI A 255"⟩, ⟨2, 2, [0x20], "HLT"⟩], {}⟩
    let disk : Disk := ⟨[(["p.bin"], image.bytes)]⟩
    let program : List Instruction := [.immediate .ldi .a 255, .bare .hlt]
    assemble {} source = .ok image ∧ disk.read "p.bin" = .ok image.bytes ∧
      program.getLast? ≠ some (.bare .rst) ∧
      (machineCode .elevenBit program).getLast? ≠ some padByte ∧
      ∃ shown, shown.map (·.decoded) = program.map .known ∧
        ((Command.disassemble "p.bin" .elevenBit).script {}).runOn disk =
          { output := disassemblyText {} "p.bin" image.bytes shown 2 0, disk := disk } := by
  intro source image disk program
  have success : assemble {} source = .ok image := by decide +kernel
  have content : disk.read "p.bin" = .ok image.bytes := by decide +kernel
  have notReset : program.getLast? ≠ some (.bare .rst) := by decide
  have notCut : (machineCode .elevenBit program).getLast? ≠ some padByte := by decide
  obtain ⟨lines, meant, fill, read, assembled, bytes, shows⟩ :=
    runOn_disassemble success content {}
  have known : meant.map Decoded.known = program.map .known := by
    rw [← map_decoded_programLines assembled.resolved.inRange 0, ← assembled.disassemble_eq rfl]
    decide +kernel
  have same : meant = program :=
    List.map_injective_iff.mpr (fun _ _ equal => Decoded.known.inj equal) known
  subst same
  have noFill : fill = 0 := by
    have size := congrArg List.length bytes
    rw [List.length_append, List.length_replicate, length_machineCode] at size
    have whole : codeSize ({} : AssemblyOptions).mode program = image.bytes.length := by decide
    omega
  obtain ⟨shown, padding, printed, whole, _⟩ := shows notReset
  obtain ⟨rfl, decoded, _⟩ := whole notCut
  rw [noFill] at printed
  exact ⟨success, content, notReset, notCut, shown, decoded, printed⟩

/-- A constant at the end is cut: a program that loads 255 is shown as one that loads zero, and
as padding is counted what no one filled up. -/
theorem disassembly_cuts_last_constant :
    let disk : Disk := ⟨[(["p.bin"], [0x04, 0xFF])]⟩
    assemble {} "ldi a 255" =
        .ok ⟨[0x04, 0xFF], [⟨1, 0, [0x04, 0xFF], "LDI A 255"⟩], {}⟩ ∧
      ((Command.disassemble "p.bin" .elevenBit).script {}).runOn disk =
        { output := "    Decoding target p.bin\n\n0000:  04         LDI A 0x00\n\n" ++
            "    Finished 1 instructions, 1 bytes of padding\n"
          disk := disk } := by
  refine ⟨by decide +kernel, ?_⟩
  decide +kernel

end Breadboard
