import Breadboard.Proofs.Image.Lines

/-!
# Bytes that are decoded without loss

An image need not be the machine code of what it is decoded to: its last instruction may
be cut off, and the upper halves of RAM addresses are not kept. Without either, every
line holds exactly the encoding of its instruction (`encode_eq_raw_iff`), and then the
whole image is the machine code of its instructions (`canonical_iff`).
-/

namespace Breadboard

/-- Images that fit into ROM, hold nothing but whole instructions, and name no address
that is not there. -/
structure Canonical (mode : AddressMode) (image : List UInt8) : Prop where
  fits : image.length ≤ romSize
  known : ∀ line ∈ disassemble mode image, line.decoded.isUnknown = false
  /-- No jump leaves ROM. -/
  targets : ∀ line ∈ disassemble mode image, ∀ condition target,
    line.decoded = .known (.jump condition target) → target.toNat < romSize
  /-- The byte behind the opcode of a RAM access is the address of a cell. -/
  cells : ∀ line ∈ disassemble mode image, line.decoded.namesCell = true →
    ∀ byte, line.raw[1]? = some byte → byte.toNat < ramSize
  /-- No instruction is cut off. -/
  whole : ∀ line ∈ disassemble mode image, line.raw.length = line.decoded.size mode

/-- A line holds the encoding of its instruction exactly if it is whole and names a cell
that is there. -/
theorem encode_eq_raw_iff {mode : AddressMode} {address : Nat} {bytes : List UInt8}
    {line : DisassemblyLine} (member : line ∈ disassembleFrom mode address bytes)
    {instruction : Instruction} (read : line.decoded = .known instruction) :
    instruction.encode mode = line.raw ↔
      line.raw.length = line.decoded.size mode ∧ (line.decoded.namesCell = true →
        ∀ byte, line.raw[1]? = some byte → byte.toNat < ramSize) := by
  obtain ⟨opcode, following, decoded, raw⟩ := exists_ofBytes_of_mem member
  constructor
  · intro same
    have length : line.raw.length = line.decoded.size mode := by
      rw [← same, instruction.length_encode, read, Decoded.size]
    refine ⟨length, fun names byte second => ?_⟩
    rw [read] at names
    cases instruction with
    | memory op register cell =>
      rw [← same] at second
      cases second
      rw [toNat_ramAddress]
      exact Nat.mod_lt _ (by decide)
    | bare | unary | pair | immediate | jump => cases names
  · intro intact
    obtain ⟨length, cells⟩ := intact
    have encoding := Decoded.encode_of_ofBytes (decoded.symm.trans read)
    have size : line.decoded.size mode = instruction.size mode := by rw [read, Decoded.size]
    rw [raw, List.length_cons, List.length_take, size] at length
    have missing : instruction.size mode - 1 - following.length = 0 := by omega
    rw [size] at raw
    rw [encoding, missing, List.replicate_zero, List.append_nil, raw]
    have unmasked : ∀ byte ∈ following.take (instruction.size mode - 1),
        (if (Decoded.known instruction).namesCell then ramAddress byte else byte) = byte := by
      intro byte member
      by_cases names : (Decoded.known instruction).namesCell
      · have two : instruction.size mode = 2 := size_of_namesCell names
        rw [two] at member raw
        have second : line.raw[1]? = some byte := by
          cases following with
          | nil => cases member
          | cons first rest =>
            rw [raw]
            exact congrArg some (List.mem_singleton.mp member).symm
        rw [if_pos names, ramAddress_of_lt (cells (by rwa [read]) byte second)]
      · rw [if_neg names]
    rw [List.map_congr_left unmasked, List.map_id']

theorem length_flatMap_raw_le {mode : AddressMode} {lines : List DisassemblyLine}
    (short : ∀ line ∈ lines, line.raw.length ≤ line.decoded.size mode) :
    (lines.flatMap (·.raw)).length ≤ decodedSize mode lines := by
  induction lines with
  | nil => exact Nat.le_refl _
  | cons line lines ih =>
    rw [List.forall_mem_cons] at short
    rw [List.flatMap_cons, List.length_append, decodedSize_cons]
    exact Nat.add_le_add short.1 (ih short.2)

/-- Lines whose bytes are the machine code of their instructions hold one encoding
each. -/
theorem raw_eq_encode_of_flatMap_eq {mode : AddressMode} {lines : List DisassemblyLine}
    (known : ∀ line ∈ lines, line.decoded.isUnknown = false)
    (short : ∀ line ∈ lines, line.raw.length ≤ line.decoded.size mode)
    (same : machineCode mode (knownProgram lines) = lines.flatMap (·.raw)) :
    ∀ line ∈ lines, ∀ instruction, line.decoded = .known instruction →
      instruction.encode mode = line.raw := by
  induction lines with
  | nil => nofun
  | cons line lines ih =>
    rw [List.forall_mem_cons] at known short
    obtain ⟨instruction, read⟩ := exists_known_of_not_unknown known.1
    have size : line.decoded.size mode = instruction.size mode := by rw [read, Decoded.size]
    have total := congrArg List.length same
    have rest := length_flatMap_raw_le short.2
    rw [knownProgram_cons read, machineCode_cons, List.flatMap_cons, List.length_append,
      List.length_append, instruction.length_encode, length_machineCode,
      codeSize_knownProgram mode known.2] at total
    rw [knownProgram_cons read, machineCode_cons, List.flatMap_cons] at same
    have first := short.1
    have lengths : (instruction.encode mode).length = line.raw.length := by
      rw [instruction.length_encode]
      omega
    obtain ⟨here, later⟩ := List.append_inj same lengths
    rw [List.forall_mem_cons]
    refine ⟨?_, ih known.2 short.2 later⟩
    intro other otherRead
    rw [read] at otherRead
    cases otherRead
    exact here

theorem flatMap_raw_eq_machineCode {mode : AddressMode} {lines : List DisassemblyLine}
    (known : ∀ line ∈ lines, line.decoded.isUnknown = false)
    (same : ∀ line ∈ lines, ∀ instruction, line.decoded = .known instruction →
      instruction.encode mode = line.raw) :
    machineCode mode (knownProgram lines) = lines.flatMap (·.raw) := by
  induction lines with
  | nil => rfl
  | cons line lines ih =>
    rw [List.forall_mem_cons] at known same
    obtain ⟨instruction, read⟩ := exists_known_of_not_unknown known.1
    rw [knownProgram_cons read, machineCode_cons, List.flatMap_cons, same.1 instruction read,
      ih known.2 same.2]

/-- **Canonical images are the machine code of their instructions.** -/
theorem canonical_iff (mode : AddressMode) (image : List UInt8) :
    Canonical mode image ↔
      (∀ line ∈ disassemble mode image, line.decoded.isUnknown = false) ∧
      (∀ line ∈ disassemble mode image, ∀ condition target,
        line.decoded = .known (.jump condition target) → target.toNat < romSize) ∧
      decodedSize mode (disassemble mode image) ≤ romSize ∧
      machineCode mode (knownProgram (disassemble mode image)) = image := by
  have bytes : (disassemble mode image).flatMap (·.raw) = image.take romSize :=
    flatMap_raw_disassembleFrom mode 0 _
  constructor
  · intro canonical
    have code := flatMap_raw_eq_machineCode canonical.known fun line member instruction read =>
      (encode_eq_raw_iff member read).mpr ⟨canonical.whole line member, canonical.cells line member⟩
    rw [bytes, List.take_of_length_le canonical.fits] at code
    have length := congrArg List.length code
    rw [length_machineCode, codeSize_knownProgram mode canonical.known] at length
    refine ⟨canonical.known, canonical.targets, ?_, code⟩
    rw [length]
    exact canonical.fits
  · intro described
    obtain ⟨known, targets, fits, code⟩ := described
    have length := congrArg List.length code
    rw [length_machineCode, codeSize_knownProgram mode known] at length
    rw [length] at fits
    rw [List.take_of_length_le fits] at bytes
    have each := raw_eq_encode_of_flatMap_eq known (fun line => length_raw_le)
      (code.trans bytes.symm)
    have exactLine : ∀ line ∈ disassemble mode image,
        line.raw.length = line.decoded.size mode ∧ (line.decoded.namesCell = true →
          ∀ byte, line.raw[1]? = some byte → byte.toNat < ramSize) := by
      intro line member
      obtain ⟨instruction, read⟩ := exists_known_of_not_unknown (known line member)
      exact (encode_eq_raw_iff member read).mp (each line member instruction read)
    exact ⟨fits, known, targets, fun line member => (exactLine line member).2,
      fun line member => (exactLine line member).1⟩

end Breadboard
