import Mathlib.Data.List.DropRight
import Breadboard.Proofs.Assembly.Disassembly
import Breadboard.Proofs.Assembly.Normalization
import Breadboard.Proofs.Image.Padding

/-!
# Counting the instructions of an image

The instructions of an image are counted in front of its padding. What is taken for padding
may reach into the code: a reset looks like padding altogether, and the last byte of
another instruction may. An instruction that has lost its last byte is still read as one, so it is
counted, and only the resets that end a program are not (`instructions_inspect_machineCode`).
-/

namespace Breadboard

section

variable (mode : AddressMode) (bytes : List UInt8) (count : Nat)

/-- Filling an image up does not change how many instructions are counted. -/
theorem instructions_inspect_append_replicate :
    (inspect mode (bytes ++ List.replicate count padByte)).instructions =
      (inspect mode bytes).instructions := by
  simp only [inspect, withoutPadding_append_replicate]

theorem used_inspect_append_replicate :
    (inspect mode (bytes ++ List.replicate count padByte)).used = (inspect mode bytes).used := by
  simp only [inspect, List.countP_append, List.countP_replicate, bne_self_eq_false,
    Bool.false_eq_true, if_false, Nat.add_zero]

theorem used_inspect : (inspect mode bytes).used = (bytes.filter (· ≠ padByte)).length := by
  simp only [inspect, List.countP_eq_length_filter, ne_eq, decide_not, bne, beq_eq_decide]

end

theorem length_rtakeWhile_map {α : Type} (holds : α → Bool) (list : List α) :
    ((list.map holds).rtakeWhile id).length = (list.rtakeWhile holds).length := by
  rw [List.rtakeWhile, List.rtakeWhile, ← List.map_reverse, List.takeWhile_map, List.length_reverse,
    List.length_map, List.length_reverse, Function.id_comp]

def Instruction.isReset (instruction : Instruction) : Bool := instruction = .bare .rst

/-- A program is some code that does not end in a reset, and resets behind it. -/
theorem exists_eq_append_resets (program : List Instruction) :
    ∃ front, program =
        front ++ List.replicate (program.rtakeWhile Instruction.isReset).length (.bare .rst) ∧
      front.getLast? ≠ some (.bare .rst) := by
  refine ⟨program.rdropWhile Instruction.isReset, ?_, ?_⟩
  · have resets : ∀ instruction ∈ program.rtakeWhile Instruction.isReset,
        instruction = .bare .rst := by
      intro instruction member
      have reset : instruction.isReset := List.mem_rtakeWhile_imp member
      exact of_decide_eq_true reset
    rw [← List.eq_replicate_of_mem resets, List.rdropWhile_append_rtakeWhile]
  · intro last
    obtain ⟨rest, whole⟩ := List.getLast?_eq_some_iff.mp last
    have someCode : program.rdropWhile Instruction.isReset ≠ [] := by simp [whole]
    apply List.rdropWhile_last_not Instruction.isReset program someCode
    rw [(List.getLast_eq_iff_getLast?_eq_some someCode).mpr last]
    rfl

/-- **The resets at the end of a program are what is not counted** of its code, however far it is
filled up. -/
theorem instructions_inspect_machineCode {mode : AddressMode} {program : List Instruction}
    (fits : codeSize mode program ≤ romSize)
    (inRom : ∀ condition target, .jump condition target ∈ program → target.toNat < romSize)
    (fill : Nat) :
    (inspect mode (machineCode mode program ++ List.replicate fill padByte)).instructions +
      (program.rtakeWhile Instruction.isReset).length = program.length := by
  obtain ⟨front, split, notReset⟩ := exists_eq_append_resets program
  generalize (program.rtakeWhile Instruction.isReset).length = count at split ⊢
  subst split
  have opcode : (Instruction.bare .rst).opcode = padByte := by decide
  have bytes :
      machineCode mode (front ++ List.replicate count (.bare .rst)) ++ List.replicate fill padByte =
        machineCode mode front ++ List.replicate (count + fill) padByte := by
    rw [machineCode_append, machineCode_replicate_bare, opcode, List.append_assoc,
      List.replicate_append_replicate]
  rw [codeSize_append] at fits
  rw [bytes, List.length_append, List.length_replicate, Nat.add_right_cancel_iff]
  change (disassemble mode (withoutPadding _)).countP (!·.decoded.isUnknown) = front.length
  have read := disassemble_withoutPadding (Nat.le_of_add_right_le fits)
    (fun condition target member => inRom condition target (List.mem_append_left _ member))
    notReset (count + fill)
  rcases read with ⟨_, _, shown⟩ | ⟨_, _, rest, last, whole, _, shown⟩
  · rw [shown, countP_programLines]
  · -- The last instruction is there, whatever its last byte is taken for.
    rw [shown, List.countP_append, countP_programLines, whole, List.length_append]
    rfl

/-- The resets that end a text: its last instruction lines, as long as they are resets. -/
def closingResets (lines : List Line) : List (Word × List Word) :=
  (lines.filterMap Line.instruction?).rtakeWhile fun words =>
    Mnemonic.ofText? words.1.text = some (.bare .rst)

theorem Means.isReset_eq {options : AssemblyOptions} {labels : String → Nat → Prop} {head : Word}
    {operands : List Word} {instruction : Instruction}
    (meaning : Means options labels head operands instruction) :
    decide (Mnemonic.ofText? head.text = some (.bare .rst)) = instruction.isReset := by
  rw [Instruction.isReset, decide_eq_decide, meaning.mnemonic, Option.some_inj]
  exact ⟨Instruction.eq_bare_of_mnemonic, congrArg Instruction.mnemonic⟩

/-- As many lines are resets at the end as instructions. -/
theorem Resolves.length_closingResets {options : AssemblyOptions} {labels : String → Nat → Prop}
    {lines : List Line} {program : List Instruction}
    (resolves : Resolves options labels lines program) :
    (closingResets lines).length = (program.rtakeWhile Instruction.isReset).length := by
  rw [closingResets, ← length_rtakeWhile_map, ← length_rtakeWhile_map Instruction.isReset,
    map_eq_map_of_forall₂ (fun _ _ meaning => meaning.isReset_eq) resolves]

/-- **Instructions are counted exactly.** In the image of a text, filled up or not, as many
instructions are found as the text has instruction lines, but for the resets that end it. For any
bytes at all, filling them up changes neither this number nor that of the bytes in use, which
are those that do not look like padding. -/
theorem inspect_counts_instructions (options : AssemblyOptions) (source : String) (image : Image)
    (success : assemble options source = .ok image) :
    (∃ lines, readSource source = .ok lines ∧
      (inspect options.mode image.bytes).instructions + (closingResets lines).length =
        (lines.filterMap Line.instruction?).length) ∧
    ∀ (mode : AddressMode) (bytes : List UInt8) (count : Nat),
      let filled := bytes ++ List.replicate count padByte
      (inspect mode filled).instructions = (inspect mode bytes).instructions ∧
        (inspect mode filled).used = (inspect mode bytes).used ∧
        (inspect mode bytes).used = (bytes.filter (· ≠ padByte)).length := by
  constructor
  · obtain ⟨lines, program, read, assembled⟩ := assembled_of_assemble success
    have resolves := assembled.resolved
    obtain ⟨fill, bytes, _⟩ := assembled.bytes
    refine ⟨lines, read, ?_⟩
    rw [bytes, resolves.length_closingResets, resolves.length_eq]
    exact instructions_inspect_machineCode assembled.codeSize_le resolves.target_lt fill
  · intro mode bytes count filled
    exact ⟨instructions_inspect_append_replicate mode bytes count,
      used_inspect_append_replicate mode bytes count, used_inspect mode bytes⟩

theorem inspect_counts_instructions_of_closing_resets :
    let source := "rst\nldi a 255\nrst\nrst"
    let lines : List Line :=
      [⟨⟨1, 0, "rst".toList⟩, .instruction ⟨"RST", ⟨0, 3⟩⟩ []⟩,
        ⟨⟨2, 4, "ldi a 255".toList⟩,
          .instruction ⟨"LDI", ⟨4, 3⟩⟩ [⟨"A", ⟨8, 1⟩⟩, ⟨"255", ⟨10, 3⟩⟩]⟩,
        ⟨⟨3, 14, "rst".toList⟩, .instruction ⟨"RST", ⟨14, 3⟩⟩ []⟩,
        ⟨⟨4, 18, "rst".toList⟩, .instruction ⟨"RST", ⟨18, 3⟩⟩ []⟩]
    let image : Image :=
      ⟨[0xFF, 0x04, 0xFF, 0xFF, 0xFF],
        [⟨1, 0, [0xFF], "RST"⟩, ⟨2, 1, [0x04, 0xFF], "LDI A 255"⟩, ⟨3, 3, [0xFF], "RST"⟩,
          ⟨4, 4, [0xFF], "RST"⟩],
        {}⟩
    readSource source = .ok lines ∧ assemble {} source = .ok image ∧
      (lines.filterMap Line.instruction?).length = 4 ∧ (closingResets lines).length = 2 ∧
      (inspect .elevenBit image.bytes).instructions = 2 ∧
      (inspect .elevenBit (image.bytes ++ List.replicate 3 padByte)).instructions = 2 := by
  intro source lines image
  have read : readSource source = .ok lines := by decide +kernel
  have success : assemble {} source = .ok image := by decide +kernel
  have total : (lines.filterMap Line.instruction?).length = 4 := rfl
  have resets : (closingResets lines).length = 2 := by decide
  obtain ⟨⟨_, same, counted⟩, filling⟩ := inspect_counts_instructions {} source image success
  cases read.symm.trans same
  rw [total, resets] at counted
  have two : (inspect .elevenBit image.bytes).instructions = 2 := Nat.add_right_cancel counted
  exact ⟨read, success, total, resets, two, (filling .elevenBit image.bytes 3).1.trans two⟩

end Breadboard
