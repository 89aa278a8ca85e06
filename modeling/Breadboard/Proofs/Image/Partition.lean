import Breadboard.Proofs.Image.Lines
import Mathlib.Data.List.Chain

/-!
# A disassembly divides its image

The lines of a disassembly take the bytes of the image in turn, as many as each of them
needs, so that only the last line can be short of bytes (`length_raw_of_mem_dropLast`). What
a line reads is encoded into its bytes again (`DisassemblyLine.encode_eq`). Together the
lines show the image as far as ROM reaches and nothing else (`disassemble_divides`).
-/

namespace Breadboard

/-- The bytes of a line, with zeros for those that the image does not have. -/
def DisassemblyLine.completed (mode : AddressMode) (line : DisassemblyLine) : List UInt8 :=
  line.raw ++ List.replicate (line.decoded.size mode - line.raw.length) 0

section

variable {mode : AddressMode} {address : Nat} {bytes : List UInt8} {line : DisassemblyLine}

/-- There is a byte for every line. -/
theorem length_disassembleFrom_le (mode : AddressMode) (address : Nat) (bytes : List UInt8) :
    (disassembleFrom mode address bytes).length ≤ bytes.length := by
  fun_induction disassembleFrom mode address bytes with
  | case1 => exact Nat.le_refl 0
  | case2 address opcode following decoded size ih =>
    rw [List.length_drop] at ih
    rw [List.length_cons, List.length_cons]
    exact Nat.succ_le_succ (Nat.le_trans ih (Nat.sub_le _ _))

theorem disassembleFrom_nil (mode : AddressMode) (address : Nat) :
    disassembleFrom mode address [] = [] := by
  rw [disassembleFrom]

/-- The first line stands at the address where reading starts. -/
theorem address_of_mem_head? (first : line ∈ (disassembleFrom mode address bytes).head?) :
    line.address = address := by
  obtain ⟨below, lines⟩ := List.head?_eq_some_iff.mp first
  exact (address_of_disassembleFrom_eq_append _ _ _ _ _ [] lines).1

theorem isChain_disassembleFrom (mode : AddressMode) (address : Nat) (bytes : List UInt8) :
    (disassembleFrom mode address bytes).IsChain fun line next =>
      next.address = line.address + line.decoded.size mode := by
  rw [List.isChain_iff_forall_rel_of_append_cons_cons]
  intro line next above below split
  exact address_eq_of_split split

/-- Lines stand inside of what was read. -/
theorem address_lt_of_mem (member : line ∈ disassembleFrom mode address bytes) :
    line.address < address + bytes.length := by
  obtain ⟨above, below, lines⟩ := List.append_of_mem member
  exact (address_of_disassembleFrom_eq_append _ _ _ _ _ above lines).2

/-- **Only the last line can be cut off**, for what follows a line stands behind its bytes. -/
theorem length_raw_of_mem_dropLast :
    line ∈ (disassembleFrom mode address bytes).dropLast →
      line.raw.length = line.decoded.size mode := by
  fun_induction disassembleFrom mode address bytes with
  | case1 =>
    intro member
    cases member
  | case2 address opcode following decoded size ih =>
    intro member
    cases rest : following.drop (size - 1) with
    | nil =>
      rw [rest, disassembleFrom_nil] at member
      cases member
    | cons next others =>
      have behind : disassembleFrom mode (address + size) (following.drop (size - 1)) ≠ [] := by
        rw [rest, disassembleFrom]
        exact List.cons_ne_nil _ _
      rw [List.dropLast_cons_of_ne_nil behind, List.mem_cons] at member
      obtain rfl | later := member
      · have left := congrArg List.length rest
        rw [List.length_drop, List.length_cons] at left
        have positive : 0 < size := decoded.size_pos mode
        change (opcode :: following.take (size - 1)).length = size
        rw [List.length_cons, List.length_take]
        omega
      · exact ih later

/-- A byte that is no opcode stands on a line of its own. -/
theorem DisassemblyLine.raw_of_unknown {byte : UInt8}
    (member : line ∈ disassembleFrom mode address bytes) (unknown : line.decoded = .unknown byte) :
    line.raw = [byte] := by
  obtain ⟨opcode, following, read, raw⟩ := exists_ofBytes_of_mem member
  rw [unknown] at read raw
  rw [Decoded.ofBytes_eq] at read
  split at read
  · cases read
  · cases read
    exact raw

/-- **What a line reads is encoded into its bytes**, as far as the image has them, except that
the number of a cell of RAM keeps its lower four bits only. -/
theorem DisassemblyLine.encode_eq {instruction : Instruction}
    (member : line ∈ disassembleFrom mode address bytes)
    (known : line.decoded = .known instruction) :
    instruction.encode mode =
      if line.decoded.namesCell then (line.completed mode).modify 1 ramAddress
      else line.completed mode := by
  obtain ⟨opcode, following, read, raw⟩ := exists_ofBytes_of_mem member
  have encoding := Decoded.encode_of_ofBytes (read.symm.trans known)
  have sameSize : line.decoded.size mode = instruction.size mode :=
    congrArg (Decoded.size mode) known
  have positive := line.decoded.size_pos mode
  have missing : line.decoded.size mode - line.raw.length =
      line.decoded.size mode - 1 - following.length := by
    rw [raw, List.length_cons, List.length_take]
    omega
  have completed : line.completed mode =
      opcode :: (following.take (line.decoded.size mode - 1) ++
        List.replicate (line.decoded.size mode - 1 - following.length) 0) := by
    rw [DisassemblyLine.completed, missing, raw, List.cons_append]
  rw [← sameSize, ← known] at encoding
  rw [encoding, completed]
  cases names : line.decoded.namesCell with
  | false => simp
  | true =>
    -- There is one byte behind the opcode, whether the image has it or not.
    rw [size_of_namesCell names]
    cases following with
    | nil => rfl
    | cons first following => simp

end

/-- **A disassembly loses nothing and adds nothing.** It has no more lines than ROM has bytes,
and their bytes are those of the image up to the size of ROM. The first line stands at address
zero, every other one where the line above it ends, and all of them inside of ROM. Only the last
line can have fewer bytes than it takes up. A line that reads no opcode has one byte, which is
the one that it shows. The instruction of any other line is encoded into the bytes of the line
with zeros for the missing ones, except that the number of a cell of RAM keeps its lower four
bits only. -/
theorem disassemble_divides (mode : AddressMode) (image : List UInt8) :
    let lines := disassemble mode image
    lines.length ≤ romSize ∧
    lines.flatMap (·.raw) = image.take (min image.length romSize) ∧
    (∀ first ∈ lines.head?, first.address = 0) ∧
    (lines.IsChain fun line next => next.address = line.address + line.decoded.size mode) ∧
    (∀ line ∈ lines, line.address < romSize) ∧
    (∀ line ∈ lines, line.raw.length ≤ line.decoded.size mode) ∧
    (∀ line ∈ lines.dropLast, line.raw.length = line.decoded.size mode) ∧
    ∀ line ∈ lines,
      match line.decoded with
      | .unknown byte => line.raw = [byte]
      | .known (.memory op register address) =>
        (Instruction.memory op register address).encode mode =
          (line.completed mode).modify 1 (· &&& 0x0F)
      | .known instruction => instruction.encode mode = line.completed mode := by
  intro lines
  have short : (image.take romSize).length ≤ romSize := by
    rw [List.length_take]
    exact Nat.min_le_left _ _
  refine ⟨Nat.le_trans (length_disassembleFrom_le _ _ _) short, ?_, ?_,
    isChain_disassembleFrom mode 0 _, ?_, fun line => length_raw_le,
    fun line => length_raw_of_mem_dropLast, ?_⟩
  · rw [Nat.min_comm, ← List.take_take, List.take_length]
    exact flatMap_raw_disassembleFrom mode 0 _
  · intro first member
    exact address_of_mem_head? member
  · intro line member
    have inside := address_lt_of_mem member
    rw [Nat.zero_add] at inside
    exact Nat.lt_of_lt_of_le inside short
  · intro line member
    split
    next byte unknown => exact DisassemblyLine.raw_of_unknown member unknown
    next op register address known =>
      have encoding := DisassemblyLine.encode_eq member known
      rw [known] at encoding
      exact encoding
    next instruction notCell known =>
      have encoding := DisassemblyLine.encode_eq member known
      have plain : line.decoded.namesCell = false := by
        rw [known]
        cases instruction with
        | memory op register address => exact (notCell op register address rfl).elim
        | bare | unary | pair | immediate | jump => rfl
      rw [plain] at encoding
      exact encoding

/-- The last line lacks the number of a cell, which is read as zero. -/
example : disassemble .elevenBit [0x0E, 0x94] =
    [⟨0, .unknown 0x0E, [0x0E]⟩, ⟨1, .known (.memory .ldm .c 0), [0x94]⟩] := by
  cbv

end Breadboard
