import Breadboard.Proofs.Image.Lines
import Breadboard.Proofs.Image.RoundTrip
import Breadboard.Proofs.Machine.Step

/-!
# The processor and the disassembler in step

Both read program memory with the same decoder, but the processor takes a window of three
bytes at its program counter, and the disassembler cuts what it has read off the front of
the image. They read the same at every address (`Cpu.step_reads_atFront`), and a step
that does not jump, halt or reset takes the processor from one line of the disassembly to
the next, the cut off instruction at the end of program memory included
(`step_follows_disassembly`).
-/

namespace Breadboard

/-- Whether execution goes on behind what was handled, which it does unless a jump is taken
or the instruction is a halt or a reset. -/
def Outcome.goesOn : Outcome → Bool
  | executed instruction jumpedTo _ =>
    jumpedTo.isNone && instruction != .bare .hlt && instruction != .bare .rst
  | skipped _ => true
  | idle | pastEnd => false

theorem Instruction.flow_eq_advance {flags : Flags} {instruction : Instruction}
    (noJump : instruction.jumpTarget? flags = none) (noHalt : instruction ≠ .bare .hlt)
    (noReset : instruction ≠ .bare .rst) : instruction.flow flags = .advance := by
  cases instruction with
  | bare op =>
    cases op with
    | nop | out => rfl
    | hlt => exact absurd rfl noHalt
    | rst => exact absurd rfl noReset
  | unary | pair | immediate | memory => rfl
  | jump condition target =>
    unfold jumpTarget? flow at noJump
    unfold flow
    by_cases holds : condition.holds flags = true
    · simp [holds] at noJump
    · simp [holds]

namespace Cpu

variable {cpu : Cpu}

/-- Behind what was handled the next step goes on. -/
theorem toNat_programCounter_handle {opcode : UInt8} {decoded : Decoded}
    (goesOn : (cpu.handle opcode decoded).1.goesOn = true)
    (inside : cpu.state.programCounter.toNat < romSize) :
    (cpu.handle opcode decoded).2.state.programCounter.toNat =
      cpu.state.programCounter.toNat + decoded.size cpu.mode := by
  have small := decoded.size_le_three cpu.mode
  have rom : romSize = 2048 := rfl
  have fits : cpu.state.programCounter.toNat + decoded.size cpu.mode < UInt16.size := by
    change _ < 65536
    omega
  rw [programCounter_handle]
  cases decoded with
  | unknown byte =>
    change (cpu.state.programCounter + 1).toNat = cpu.state.programCounter.toNat + 1
    rw [UInt16.toNat_add]
    exact Nat.mod_eq_of_lt fits
  | known instruction =>
    have flow : instruction.flow cpu.state.flags = .advance := by
      rw [handle_known_fst, Outcome.goesOn] at goesOn
      simp only [Bool.and_eq_true, Option.isNone_iff_eq_none, bne_iff_ne] at goesOn
      exact instruction.flow_eq_advance goesOn.1.1 goesOn.1.2 goesOn.2
    simp only [flow]
    exact UInt16.toNat_ofNat_of_lt' fits

/-- What is handled inside of program memory is what the disassembler finds at the front of
the bytes from there on. -/
theorem step_reads_atFront (active : cpu.isHalted = false)
    (inside : cpu.state.programCounter.toNat < romSize) :
    ∃ opcode decoded, cpu.rom.read? cpu.state.programCounter.toNat = some opcode ∧
      Decoded.atFront? cpu.mode (cpu.rom.toList.drop cpu.state.programCounter.toNat) =
        some decoded ∧
      cpu.step = cpu.handle opcode decoded ∧
      cpu.step.1.handled? = some decoded ∧
      cpu.step.2.state.lastDecoded =
        if decoded = .known (.bare .rst) then none else some decoded := by
  obtain ⟨opcode, following, bytes, step⟩ := exists_step_eq_handle active inside
  refine ⟨opcode, .ofBytes cpu.mode opcode following, Rom.read?_of_drop bytes, ?_, step, ?_, ?_⟩
  · rw [bytes, Decoded.atFront?]
  · rw [step, handled?_handle]
  · rw [step, lastDecoded_handle]

/-- At a line of the disassembly, the line is handled, and the next one comes behind it. -/
theorem step_at_line {above below : List DisassemblyLine} {line : DisassemblyLine} :
    disassemble cpu.mode cpu.rom.toList = above ++ line :: below → cpu.isHalted = false →
      cpu.state.programCounter.toNat = line.address →
        cpu.step.1.handled? = some line.decoded ∧
          (cpu.step.1.goesOn = true →
            match below with
            | [] => romSize ≤ cpu.step.2.state.programCounter.toNat
            | next :: _ => cpu.step.2.state.programCounter.toNat = next.address) := by
  intro split active here
  have whole : cpu.rom.toList.take romSize = cpu.rom.toList := by
    rw [List.take_of_length_le (Nat.le_of_eq (Vector.length_toList))]
  rw [disassemble, whole] at split
  obtain ⟨opcode, following, bytes, read⟩ := exists_drop_of_split split
  have inside : cpu.state.programCounter.toNat < romSize := by
    have bound := (address_of_disassembleFrom_eq_append _ _ _ _ _ above split).2
    rw [Vector.length_toList] at bound
    omega
  rw [← here] at bytes
  have step := step_eq_handle active bytes
  rw [← read] at step
  rw [step]
  refine ⟨cpu.handled?_handle opcode _, fun goesOn => ?_⟩
  have next := toNat_programCounter_handle goesOn inside
  cases below with
  | nil =>
    have last := le_of_split_last split
    rw [Vector.length_toList] at last
    simp only [next, here]
    omega
  | cons following others =>
    simp only [next, here]
    exact (address_eq_of_split split).symm

end Cpu

/-- **The processor and the disassembler read alike.** What stands at the program counter
is handled and remembered as the disassembler reads it there. So a step from the address of
a line handles what the line shows, and goes on at the next line unless it jumps, halts or
resets; from the last line it goes on behind the end of program memory. -/
theorem step_follows_disassembly :
    (∀ cpu : Cpu, cpu.isHalted = false → cpu.state.programCounter.toNat < romSize →
      ∃ opcode decoded, cpu.rom.read? cpu.state.programCounter.toNat = some opcode ∧
        Decoded.atFront? cpu.mode (cpu.rom.toList.drop cpu.state.programCounter.toNat) =
          some decoded ∧
        cpu.step = cpu.handle opcode decoded ∧
        cpu.step.1.handled? = some decoded ∧
        cpu.step.2.state.lastDecoded =
          if decoded = .known (.bare .rst) then none else some decoded) ∧
    (∀ (cpu : Cpu) (above : List DisassemblyLine) (line : DisassemblyLine)
      (below : List DisassemblyLine),
      disassemble cpu.mode cpu.rom.toList = above ++ line :: below →
      cpu.isHalted = false → cpu.state.programCounter.toNat = line.address →
      cpu.step.1.handled? = some line.decoded ∧
        (cpu.step.1.goesOn = true →
          match below with
          | [] => romSize ≤ cpu.step.2.state.programCounter.toNat
          | next :: _ => cpu.step.2.state.programCounter.toNat = next.address)) := by
  refine ⟨?_, ?_⟩
  · intro cpu active inside
    exact Cpu.step_reads_atFront active inside
  · intro cpu above line below
    exact Cpu.step_at_line

theorem step_follows_disassembly_to_cut_off_jump :
    let cpu : Cpu :=
      { mode := .elevenBit
        rom := Rom.blank.overwrite [0x15] 2047 (by decide)
        state := { programCounter := 2047 } }
    cpu.isHalted = false ∧ cpu.state.programCounter.toNat < romSize ∧
      disassemble cpu.mode cpu.rom.toList =
        programLines .elevenBit 0 (List.replicate 2047 (.bare .nop)) ++
          [⟨2047, .known (.jump .zero 0), [0x15]⟩] ∧
      cpu.step.1.handled? = some (.known (.jump .zero 0)) ∧
      cpu.step.2.state.lastDecoded = some (.known (.jump .zero 0)) ∧
      romSize ≤ cpu.step.2.state.programCounter.toNat := by
  intro cpu
  have nops : List.replicate 2047 0 = machineCode .elevenBit (List.replicate 2047 (.bare .nop)) :=
    (machineCode_replicate_bare .elevenBit .nop 2047).symm
  have size := length_machineCode .elevenBit (List.replicate 2047 (.bare .nop))
  rw [← nops, List.length_replicate] at size
  have bytes : cpu.rom.toList =
      machineCode .elevenBit (List.replicate 2047 (.bare .nop)) ++ [0x15] := by
    have blank : Rom.blank.toList = List.replicate 2048 0 := Vector.toList_replicate
    have front : min 2047 2048 = 2047 := by decide
    have back : 2048 - (2047 + [(0x15 : UInt8)].length) = 0 := by decide
    rw [Rom.toList_overwrite, blank, List.take_replicate, List.drop_replicate, ← nops, front,
      back, List.replicate_zero, List.append_nil]
  have last : disassembleFrom .elevenBit 2047 [0x15] =
      [⟨2047, .known (.jump .zero 0), [0x15]⟩] := by cbv
  have lines : disassemble cpu.mode cpu.rom.toList =
      programLines .elevenBit 0 (List.replicate 2047 (.bare .nop)) ++
        [⟨2047, .known (.jump .zero 0), [0x15]⟩] := by
    rw [disassemble, List.take_of_length_le (Nat.le_of_eq (Vector.length_toList)), bytes,
      disassembleFrom_machineCode_append, ← size, Nat.zero_add, last]
  obtain ⟨reads, follows⟩ := step_follows_disassembly
  obtain ⟨opcode, decoded, _, _, step, handled, remembered⟩ := reads cpu rfl (by decide)
  obtain ⟨same, goesOn⟩ := follows cpu _ _ [] lines rfl rfl
  rw [handled] at same
  cases same
  refine ⟨rfl, by decide, lines, handled, remembered, goesOn ?_⟩
  rw [step]
  rfl

end Breadboard
