import Breadboard.Image.Inspection
import Breadboard.Proofs.Image.RoundTrip
import Breadboard.Proofs.Isa.Reencoding
import Mathlib.Data.List.Basic

/-!
# Padding and code

What counts as padding is told by the bytes alone: everything at the end of an image that looks
like an erased cell. The bytes that an image was filled up with are padding in this sense, but
so is the last byte of an instruction that ends in such a byte, a constant or the lower half of
a jump target. It is one byte at most (`getLast?_dropLast_encode_ne`), unless the instruction is
a reset, and the image without it is disassembled into the program without that byte
(`disassembleFrom_dropLast`).
-/

namespace Breadboard

theorem withoutPadding_concat (bytes : List UInt8) :
    withoutPadding (bytes ++ [padByte]) = withoutPadding bytes := by
  rw [withoutPadding, List.reverse_concat, List.dropWhile_cons, if_pos BEq.rfl, withoutPadding]

theorem withoutPadding_append_replicate (bytes : List UInt8) (count : Nat) :
    withoutPadding (bytes ++ List.replicate count padByte) = withoutPadding bytes := by
  induction count with
  | zero => rw [List.replicate_zero, List.append_nil]
  | succ count ih => rw [List.replicate_succ', ← List.append_assoc, withoutPadding_concat, ih]

theorem withoutPadding_of_getLast?_ne {bytes : List UInt8}
    (noPadding : bytes.getLast? ≠ some padByte) : withoutPadding bytes = bytes := by
  rw [withoutPadding, List.reverse_eq_iff]
  rw [List.getLast?_eq_head?_reverse] at noPadding
  cases reversed : bytes.reverse with
  | nil => rfl
  | cons last rest =>
    rw [reversed, List.head?_cons] at noPadding
    rw [List.dropWhile_cons, if_neg]
    simpa using noPadding

/-- If only the last byte looks like padding, then only the last byte is taken away. -/
theorem withoutPadding_of_getLast?_eq {bytes : List UInt8} (padding : bytes.getLast? = some padByte)
    (noMore : bytes.dropLast.getLast? ≠ some padByte) : withoutPadding bytes = bytes.dropLast := by
  obtain ⟨front, rfl⟩ := List.getLast?_eq_some_iff.mp padding
  rw [List.dropLast_concat] at noMore ⊢
  rw [withoutPadding_concat, withoutPadding_of_getLast?_ne noMore]

namespace Instruction

/-- The instruction as it is read if the last of the bytes behind its opcode is missing. -/
def curtailed (mode : AddressMode) : Instruction → Instruction
  | immediate op register _ => immediate op register 0
  | memory op register _ => memory op register 0
  | jump condition target =>
    jump condition
      (match mode with
        | .eightBit => 0
        | .elevenBit => UInt16.ofNat (target.toNat / 256 * 256))
  | instruction => instruction

theorem encode_ne_nil (mode : AddressMode) (instruction : Instruction) :
    instruction.encode mode ≠ [] := List.cons_ne_nil _ _

theorem mnemonic_curtailed (mode : AddressMode) (instruction : Instruction) :
    (instruction.curtailed mode).mnemonic = instruction.mnemonic := by
  cases instruction <;> rfl

/-- The opcode of a reset is the only one that looks like padding. -/
theorem opcode_ne_padByte {instruction : Instruction} (notReset : instruction ≠ .bare .rst) :
    instruction.opcode ≠ padByte := by
  intro same
  have known := Mnemonic.ofOpcode?_opcode instruction.mnemonic instruction.upperRegister
    instruction.lowerRegister
  have reset : Mnemonic.ofOpcode? padByte = some (.bare .rst) := by decide
  rw [← opcode, same, reset] at known
  exact notReset (eq_bare_of_mnemonic (Option.some.inj known).symm)

section

variable {mode : AddressMode} {instruction : Instruction}

/-- **At most one byte of an instruction looks like padding**, if it is no reset and if it jumps
into ROM. -/
theorem getLast?_dropLast_encode_ne (notReset : instruction ≠ .bare .rst)
    (inRom : ∀ condition target, instruction = .jump condition target → target.toNat < romSize) :
    (instruction.encode mode).dropLast.getLast? ≠ some padByte := by
  have opcode := opcode_ne_padByte notReset
  rw [encode]
  cases instruction with
  | bare | unary | pair => exact (Option.some_ne_none _).symm
  | immediate | memory => simpa [payload] using opcode
  | jump condition target =>
    cases mode with
    | eightBit => simpa [payload, AddressMode.targetBytes] using opcode
    | elevenBit =>
      have small := inRom condition target rfl
      have upper := AddressMode.toNat_upperByte target
      intro padding
      have same : (target >>> 8).toUInt8 = padByte := Option.some.inj padding
      rw [same] at upper
      have all : padByte.toNat = 255 := rfl
      have size : romSize = 2048 := rfl
      omega

/-- An instruction of which the last byte looks like padding has bytes behind its opcode. -/
theorem payload_ne_nil (notReset : instruction ≠ .bare .rst)
    (padding : (instruction.encode mode).getLast? = some padByte) :
    instruction.payload mode ≠ [] := by
  intro nothing
  rw [encode, nothing] at padding
  exact opcode_ne_padByte notReset (Option.some.inj padding)

/-- What is read without the last byte. -/
theorem ofBytes_dropLast_payload (someByte : instruction.payload mode ≠ []) :
    Decoded.ofBytes mode instruction.opcode (instruction.payload mode).dropLast =
      .known (instruction.curtailed mode) := by
  rw [Decoded.ofBytes_eq, opcode, Mnemonic.ofOpcode?_opcode, ← opcode]
  simp only [withPayload_unpack_opcode, Decoded.known.injEq]
  cases instruction with
  | bare | unary | pair => exact absurd rfl someByte
  | immediate => rfl
  | memory op register => exact congrArg (memory op register) (by decide : ramAddress 0 = 0)
  | jump condition target =>
    cases mode with
    | eightBit => rfl
    | elevenBit =>
      have upper := AddressMode.toNat_upperByte target
      have bound := target.toNat_lt
      have fits : target.toNat / 256 * 256 < UInt16.size := by
        change _ < 65536
        omega
      simp only [withPayload, curtailed, jump.injEq, true_and]
      apply UInt16.toNat.inj
      rw [AddressMode.toNat_readTarget_elevenBit, UInt16.toNat_ofNat_of_lt' fits, ← upper]
      simp [payload, AddressMode.targetBytes]

/-- The byte that is read as zero was not zero. -/
theorem curtailed_ne (padding : (instruction.encode mode).getLast? = some padByte)
    (someByte : instruction.payload mode ≠ []) : instruction.curtailed mode ≠ instruction := by
  intro same
  rw [← same, encode] at padding
  cases instruction with
  | bare | unary | pair => exact absurd rfl someByte
  | immediate =>
    have zero : (0 : UInt8) = padByte := Option.some.inj padding
    exact absurd zero (by decide)
  | memory =>
    have zero : ramAddress 0 = padByte := Option.some.inj padding
    exact absurd zero (by decide)
  | jump condition target =>
    cases mode with
    | eightBit =>
      have zero : (0 : UInt16).toUInt8 = padByte := Option.some.inj padding
      exact absurd zero (by decide)
    | elevenBit =>
      have zero : (UInt16.ofNat (target.toNat / 256 * 256)).toUInt8 = padByte :=
        Option.some.inj padding
      have lower := congrArg UInt8.toNat zero
      have all : padByte.toNat = 255 := rfl
      rw [UInt16.toNat_toUInt8, UInt16.toNat_ofNat', all] at lower
      omega

end

end Instruction

section

variable (mode : AddressMode) (front : List Instruction) (last : Instruction)

/-- The last byte of the code belongs to the last instruction. -/
theorem getLast?_machineCode_concat :
    (machineCode mode (front ++ [last])).getLast? = (last.encode mode).getLast? := by
  rw [machineCode_append, machineCode_cons, machineCode_nil, List.append_nil,
    List.getLast?_append_of_ne_nil _ (last.encode_ne_nil mode)]

theorem dropLast_machineCode_concat :
    (machineCode mode (front ++ [last])).dropLast =
      machineCode mode front ++ (last.encode mode).dropLast := by
  rw [machineCode_append, machineCode_cons, machineCode_nil, List.append_nil]
  exact List.dropLast_append_of_ne_nil (last.encode_ne_nil mode)

end

/-- **Code without its last byte**, which belongs to the last instruction, is disassembled into
the program with that instruction curtailed. -/
theorem disassembleFrom_dropLast {mode : AddressMode} {last : Instruction}
    (someByte : last.payload mode ≠ []) (address : Nat) (front : List Instruction) :
    disassembleFrom mode address (machineCode mode (front ++ [last])).dropLast =
      programLines mode address front ++
        [⟨address + codeSize mode front, .known (last.curtailed mode),
          (last.encode mode).dropLast⟩] := by
  have own : (last.encode mode).dropLast = last.opcode :: (last.payload mode).dropLast :=
    List.dropLast_cons_of_ne_nil someByte
  have sameSize : (last.curtailed mode).size mode = last.size mode := by
    rw [Instruction.size, Instruction.mnemonic_curtailed, Instruction.size]
  have short : (last.payload mode).dropLast.length ≤ last.size mode - 1 := by
    rw [List.length_dropLast, last.length_payload]
    omega
  rw [dropLast_machineCode_concat, disassembleFrom_machineCode_append, own, disassembleFrom,
    Instruction.ofBytes_dropLast_payload someByte]
  simp only [Decoded.size, sameSize, List.take_of_length_le short, List.drop_of_length_le short]
  rw [disassembleFrom]

/-- **What is read of an image in front of its padding**: the program, or the program without its
last byte. Here the bytes behind the code are padding, but whether the last byte of the code is
cannot be told from them. -/
theorem disassemble_withoutPadding {mode : AddressMode} {program : List Instruction}
    (fits : codeSize mode program ≤ romSize)
    (inRom : ∀ condition target, .jump condition target ∈ program → target.toNat < romSize)
    (notReset : program.getLast? ≠ some (.bare .rst)) (fill : Nat) :
    let image := machineCode mode program ++ List.replicate fill padByte
    ((machineCode mode program).getLast? ≠ some padByte ∧
      image.length - (withoutPadding image).length = fill ∧
      disassemble mode (withoutPadding image) = programLines mode 0 program) ∨
    ((machineCode mode program).getLast? = some padByte ∧
      image.length - (withoutPadding image).length = fill + 1 ∧
      ∃ front last, program = front ++ [last] ∧ last.curtailed mode ≠ last ∧
        disassemble mode (withoutPadding image) = programLines mode 0 front ++
          [⟨codeSize mode front, .known (last.curtailed mode), (last.encode mode).dropLast⟩]) := by
  intro image
  rw [← length_machineCode] at fits
  have trimmed : withoutPadding image = withoutPadding (machineCode mode program) :=
    withoutPadding_append_replicate _ fill
  have size : image.length = (machineCode mode program).length + fill := by
    rw [List.length_append, List.length_replicate]
  by_cases padding : (machineCode mode program).getLast? = some padByte
  · right
    rcases List.eq_nil_or_concat program with rfl | ⟨front, last, rfl⟩
    · cases padding
    rw [List.concat_eq_append] at *
    have own := padding
    rw [getLast?_machineCode_concat] at own
    have notLast : last ≠ .bare .rst := by simpa using notReset
    have someByte := Instruction.payload_ne_nil notLast own
    have noMore : (machineCode mode (front ++ [last])).dropLast.getLast? ≠ some padByte := by
      have ownFront : (last.encode mode).dropLast ≠ [] := by
        rw [Instruction.encode, List.dropLast_cons_of_ne_nil someByte]
        exact List.cons_ne_nil _ _
      rw [dropLast_machineCode_concat, List.getLast?_append_of_ne_nil _ ownFront]
      exact Instruction.getLast?_dropLast_encode_ne notLast fun condition target same =>
        inRom condition target (by simp [same])
    have positive : 0 < (machineCode mode (front ++ [last])).length := by
      rw [length_machineCode, codeSize_append, codeSize_cons]
      have := last.size_pos mode
      omega
    rw [trimmed, withoutPadding_of_getLast?_eq padding noMore, size, List.length_dropLast,
      disassemble]
    refine ⟨padding, by omega, front, last, rfl, Instruction.curtailed_ne own someByte, ?_⟩
    rw [List.take_of_length_le, disassembleFrom_dropLast someByte, Nat.zero_add]
    rw [List.length_dropLast]
    exact Nat.le_trans (Nat.sub_le _ _) fits
  · left
    rw [trimmed, withoutPadding_of_getLast?_ne padding, size, Nat.add_sub_cancel_left, disassemble,
      List.take_of_length_le fits, disassembleFrom_machineCode]
    exact ⟨padding, rfl, rfl⟩

end Breadboard
