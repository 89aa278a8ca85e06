import Breadboard.Proofs.Assembly.Correctness
import Breadboard.Proofs.Image.RoundTrip

/-!
# Disassembling an assembled image

An image that was not filled up is the machine code of a program whose operands are all
in range, so it is disassembled into exactly this program. The lines of the disassembly
are the entries of the listing that belong to instruction lines, in the same order.
-/

namespace Breadboard

/-- What a line means is in range, so that nothing of it is lost in the encoding. -/
theorem Means.inRange {options : AssemblyOptions} {labels : String → Nat → Prop} {head : Word}
    {operands : List Word} {instruction : Instruction}
    (meaning : Means options labels head operands instruction) :
    instruction.InRange options.mode := by
  cases meaning with
  | bare | unary | pair | immediate => trivial
  | memory _ _ _ inRam stored =>
    rw [← stored] at inRam
    exact Int.ofNat_lt.mp inRam
  | jump _ _ inRom stored =>
    intro eightBit
    rw [← stored, eightBit] at inRom
    exact Int.ofNat_lt.mp inRom

/-- A jump leads into ROM. -/
theorem Means.target_lt {options : AssemblyOptions} {labels : String → Nat → Prop} {head : Word}
    {operands : List Word} {condition : Condition} {target : UInt16}
    (meaning : Means options labels head operands (.jump condition target)) :
    target.toNat < romSize := by
  have limit : options.mode.limit ≤ romSize := by cases options.mode <;> decide
  cases meaning with
  | jump _ _ inRom stored => omega

namespace Resolves

variable {options : AssemblyOptions} {labels : String → Nat → Prop} {lines : List Line}
  {program : List Instruction}

/-- What is so of everything that a line can mean is so of a whole program. -/
theorem forall_mem (resolves : Resolves options labels lines program) {holds : Instruction → Prop}
    (meant : ∀ {head operands instruction}, Means options labels head operands instruction →
      holds instruction) : ∀ instruction ∈ program, holds instruction := by
  rw [Resolves] at resolves
  generalize lines.filterMap Line.instruction? = written at resolves
  induction resolves with
  | nil => exact List.forall_mem_nil _
  | cons meaning _ ih => exact List.forall_mem_cons.mpr ⟨meant meaning, ih⟩

theorem inRange (resolves : Resolves options labels lines program) :
    ∀ instruction ∈ program, instruction.InRange options.mode :=
  resolves.forall_mem Means.inRange

/-- No line means a jump past the end of ROM. -/
theorem target_lt (resolves : Resolves options labels lines program) (condition : Condition)
    (target : UInt16) (member : .jump condition target ∈ program) : target.toNat < romSize := by
  have leads : ∀ instruction ∈ program, ∀ condition target,
      instruction = .jump condition target → target.toNat < romSize := by
    refine resolves.forall_mem fun meaning condition target same => ?_
    subst same
    exact meaning.target_lt
  exact leads _ member condition target rfl

/-- The entries with bytes are those of the instruction lines. -/
theorem line_codeEntries (resolves : Resolves options labels lines program) (address : Nat) :
    ((listingFrom options.mode address lines program).filter (!·.bytes.isEmpty)).map (·.line) =
      (lines.filter (·.instruction?.isSome)).map (·.raw.number) := by
  induction lines generalizing program address with
  | nil => rfl
  | cons line lines ih =>
    obtain ⟨raw, content⟩ := line
    cases content with
    | blank => exact ih ((resolves_cons_of_none rfl).mp resolves) address
    | label name => exact ih ((resolves_cons_of_none rfl).mp resolves) address
    | instruction head operands =>
      obtain ⟨instruction, others, meaning, rest, rfl⟩ := (resolves_cons_of_some rfl).mp resolves
      exact congrArg (List.cons raw.number) (ih rest (address + instruction.size options.mode))

theorem forall₂_programLines (resolves : Resolves options labels lines program) (address : Nat) :
    List.Forall₂ (fun line entry => line.address = entry.address ∧ line.raw = entry.bytes)
      (programLines options.mode address program)
      ((listingFrom options.mode address lines program).filter (!·.bytes.isEmpty)) := by
  induction lines generalizing program address with
  | nil =>
    rw [resolves_nil_iff.mp resolves]
    exact .nil
  | cons line lines ih =>
    obtain ⟨raw, content⟩ := line
    cases content with
    | blank => exact ih ((resolves_cons_of_none rfl).mp resolves) address
    | label name => exact ih ((resolves_cons_of_none rfl).mp resolves) address
    | instruction head operands =>
      obtain ⟨instruction, others, meaning, rest, rfl⟩ := (resolves_cons_of_some rfl).mp resolves
      rw [programLines_cons]
      exact .cons ⟨rfl, rfl⟩ (ih rest (address + instruction.size options.mode))

end Resolves

theorem map_decoded_programLines {mode : AddressMode} {program : List Instruction}
    (inRange : ∀ instruction ∈ program, instruction.InRange mode) (address : Nat) :
    (programLines mode address program).map (·.decoded) = program.map .known := by
  induction program generalizing address with
  | nil => rfl
  | cons instruction program ih =>
    rw [List.forall_mem_cons] at inRange
    rw [programLines_cons, List.map_cons, List.map_cons, ih inRange.2,
      Instruction.reduced_of_inRange inRange.1]

/-- An image that was not filled up is disassembled into its program. -/
theorem Assembled.disassemble_eq {options : AssemblyOptions} {lines : List Line}
    {program : List Instruction} {image : Image} (assembled : Assembled options lines program image)
    (unpadded : options.padded = false) :
    disassemble options.mode image.bytes = programLines options.mode 0 program := by
  rw [assembled.bytes_eq_of_unpadded unpadded, disassemble_machineCode _ _ assembled.codeSize_le]

/-- **Disassembly inverts encoding over whole programs.** The machine code of a program
that fits into ROM is read back instruction by instruction, each at its address, with
its own bytes and with the operands that the encoding keeps, which are all of them where
they are in range. So the disassembly of an assembled image has one line for each entry
of the listing that belongs to an instruction line, and shows the instruction that this
line means. -/
theorem disassembly_inverts_encoding :
    (∀ mode program, codeSize mode program ≤ romSize →
      disassemble mode (machineCode mode program) =
        program.mapIdx fun index instruction =>
          ⟨offset mode program index, .known (instruction.reduced mode),
            instruction.encode mode⟩) ∧
    (∀ (mode : AddressMode) (instruction : Instruction),
      instruction.InRange mode → instruction.reduced mode = instruction) ∧
    (∀ options source image, options.padded = false → assemble options source = .ok image →
      ∃ lines program, readSource source = .ok lines ∧
        Assembled options lines program image ∧
        (disassemble options.mode image.bytes).map (·.decoded) = program.map .known ∧
        ∃ entries, entries = image.listing.filter (!·.bytes.isEmpty) ∧
          entries.map (·.line) = (lines.filter (·.instruction?.isSome)).map (·.raw.number) ∧
          List.Forall₂ (fun line entry => line.address = entry.address ∧ line.raw = entry.bytes)
            (disassemble options.mode image.bytes) entries) := by
  refine ⟨?_, fun mode instruction => Instruction.reduced_of_inRange, ?_⟩
  · intro mode program fits
    rw [disassemble_machineCode mode program fits, programLines]
    simp only [Nat.zero_add]
  · intro options source image unpadded success
    obtain ⟨lines, program, read, assembled⟩ := assembled_of_assemble success
    have resolves := assembled.resolved
    refine ⟨lines, program, read, assembled, ?_, _, rfl, ?_, ?_⟩
    · rw [assembled.disassemble_eq unpadded, map_decoded_programLines resolves.inRange]
    · rw [assembled.listing, resolves.line_codeEntries]
    · rw [assembled.disassemble_eq unpadded, assembled.listing]
      exact resolves.forall₂_programLines 0

theorem disassembly_inverts_encoding_of_loop :
    disassemble .eightBit (machineCode .eightBit [.memory .ldm .a 0x25, .jump .always 0x0104]) =
        [⟨0, .known (.memory .ldm .a 5), [0x14, 5]⟩,
          ⟨2, .known (.jump .always 4), [0x05, 4]⟩] ∧
      (Instruction.jump .always 0x0104).reduced .elevenBit = .jump .always 0x0104 ∧
      ∃ image lines program, assemble {} "loop:\n ldm a 5\n jmp Loop" = .ok image ∧
        Assembled {} lines program image ∧
        (disassemble .elevenBit image.bytes).map (·.decoded) = program.map .known ∧
        program.map Decoded.known = [.known (.memory .ldm .a 5), .known (.jump .always 0)] := by
  obtain ⟨programs, inRange, sources⟩ := disassembly_inverts_encoding
  have success : assemble {} "loop:\n ldm a 5\n jmp Loop" =
      .ok ⟨[0x14, 5, 0x05, 0, 0],
        [⟨1, 0, [], "LOOP:"⟩, ⟨2, 0, [0x14, 5], "LDM A 5"⟩, ⟨3, 2, [0x05, 0, 0], "JMP LOOP"⟩],
        ⟨[("LOOP", 0)]⟩⟩ := by decide +kernel
  obtain ⟨lines, program, _, assembled, decoded, _⟩ := sources {} _ _ rfl success
  refine ⟨programs .eightBit _ (by decide), inRange .elevenBit _ (by rintro ⟨⟩), _, lines, program,
    success, assembled, decoded, decoded.symm.trans ?_⟩
  decide +kernel

end Breadboard
