import Breadboard.Image.Disassembly
import Breadboard.Proofs.Isa.MachineCode
import Breadboard.Proofs.Isa.Reencoding

/-!
# The lines of a disassembly

Reading an image loses nothing: the bytes of the lines are the bytes of the image, and
the address of a line is the size of everything above it. All lines but the last have
all of their bytes. What is known among the lines is a program, whose machine code is
the image again but for bytes that were missing and for the upper halves of RAM
addresses (`machineCode_disassembleFrom`).
-/

namespace Breadboard

/-- How many bytes the lines of a disassembly take up, whether the image holds all of
them or not. -/
def decodedSize (mode : AddressMode) (lines : List DisassemblyLine) : Nat :=
  (lines.map (·.decoded.size mode)).sum

/-- The instructions among the lines of a disassembly. -/
def knownProgram (lines : List DisassemblyLine) : List Instruction :=
  lines.filterMap (·.decoded.instruction?)

@[simp] theorem decodedSize_nil (mode : AddressMode) : decodedSize mode [] = 0 := rfl

@[simp] theorem decodedSize_cons (mode : AddressMode) (line : DisassemblyLine)
    (lines : List DisassemblyLine) :
    decodedSize mode (line :: lines) = line.decoded.size mode + decodedSize mode lines := by
  simp only [decodedSize, List.map_cons, List.sum_cons]

@[simp] theorem decodedSize_append (mode : AddressMode) (above below : List DisassemblyLine) :
    decodedSize mode (above ++ below) = decodedSize mode above + decodedSize mode below := by
  rw [decodedSize, List.map_append, List.sum_append, decodedSize, decodedSize]

theorem exists_known_of_not_unknown {decoded : Decoded} (known : decoded.isUnknown = false) :
    ∃ instruction, decoded = .known instruction := by
  cases decoded with
  | known instruction => exact ⟨instruction, rfl⟩
  | unknown byte => cases known

theorem knownProgram_cons {line : DisassemblyLine} {lines : List DisassemblyLine}
    {instruction : Instruction} (read : line.decoded = .known instruction) :
    knownProgram (line :: lines) = instruction :: knownProgram lines :=
  List.filterMap_cons_some (congrArg Decoded.instruction? read)

/-- Every line reads an opcode and the bytes that follow it. -/
theorem exists_ofBytes_of_mem {mode : AddressMode} {address : Nat} {bytes : List UInt8}
    {line : DisassemblyLine} (member : line ∈ disassembleFrom mode address bytes) :
    ∃ opcode following, line.decoded = .ofBytes mode opcode following ∧
      line.raw = opcode :: following.take (line.decoded.size mode - 1) := by
  fun_induction disassembleFrom mode address bytes with
  | case1 => cases member
  | case2 address opcode following decoded size ih =>
    rcases List.mem_cons.mp member with rfl | later
    · exact ⟨opcode, following, rfl, rfl⟩
    · exact ih later

/-- **Nothing is lost.** -/
theorem flatMap_raw_disassembleFrom (mode : AddressMode) (address : Nat) (bytes : List UInt8) :
    (disassembleFrom mode address bytes).flatMap (·.raw) = bytes := by
  fun_induction disassembleFrom mode address bytes with
  | case1 => rfl
  | case2 address opcode following decoded size ih =>
    rw [List.flatMap_cons, ih, List.cons_append, List.take_append_drop]

/-- The address of a line is the size of the lines above it, and it stands inside of
what was read. -/
theorem address_of_disassembleFrom_eq_append (mode : AddressMode) (address : Nat)
    (bytes : List UInt8) (line : DisassemblyLine) (below : List DisassemblyLine) :
    ∀ above, disassembleFrom mode address bytes = above ++ line :: below →
      line.address = address + decodedSize mode above ∧ line.address < address + bytes.length := by
  fun_induction disassembleFrom mode address bytes with
  | case1 =>
    intro above lines
    cases above <;> cases lines
  | case2 address opcode following decoded size ih =>
    intro above lines
    cases above with
    | nil =>
      obtain ⟨rfl, _⟩ := List.cons.inj lines
      exact ⟨rfl, Nat.lt_add_of_pos_right (Nat.succ_pos _)⟩
    | cons first above =>
      obtain ⟨rfl, rest⟩ := List.cons.inj lines
      obtain ⟨same, inside⟩ := ih above rest
      have positive : 0 < size := decoded.size_pos mode
      rw [decodedSize_cons, ← Nat.add_assoc]
      refine ⟨same, ?_⟩
      rw [List.length_drop] at inside
      rw [List.length_cons]
      omega

/-- Behind the lines above, reading starts anew. -/
theorem disassembleFrom_drop {mode : AddressMode} {address : Nat} {bytes : List UInt8}
    {above lines : List DisassemblyLine}
    (split : disassembleFrom mode address bytes = above ++ lines) :
    disassembleFrom mode (address + decodedSize mode above)
      (bytes.drop (decodedSize mode above)) = lines := by
  induction above generalizing address bytes with
  | nil => exact split
  | cons first above ih =>
    cases bytes with
    | nil =>
      rw [disassembleFrom] at split
      cases split
    | cons opcode following =>
      rw [disassembleFrom] at split
      obtain ⟨rfl, rest⟩ := List.cons.inj split
      obtain ⟨more, size⟩ := Nat.exists_eq_succ_of_ne_zero (Nat.ne_of_gt
        ((Decoded.ofBytes mode opcode following).size_pos mode))
      have later := ih rest
      rw [size, Nat.succ_eq_add_one, Nat.add_sub_cancel, List.drop_drop] at later
      have behind : more + 1 + decodedSize mode above = more + decodedSize mode above + 1 := by
        omega
      rw [decodedSize_cons, ← Nat.add_assoc, size, Nat.succ_eq_add_one, behind,
        List.drop_succ_cons]
      exact later

section

variable {mode : AddressMode} {address : Nat} {bytes : List UInt8}
  {above below : List DisassemblyLine} {line : DisassemblyLine}

/-- A line shows what stands at its address. -/
theorem exists_drop_of_split (split : disassembleFrom mode 0 bytes = above ++ line :: below) :
    ∃ opcode following, bytes.drop line.address = opcode :: following ∧
      line.decoded = .ofBytes mode opcode following := by
  have reading := disassembleFrom_drop split
  rw [(address_of_disassembleFrom_eq_append _ _ _ _ _ above split).1]
  rw [Nat.zero_add] at reading ⊢
  cases rest : bytes.drop (decodedSize mode above) with
  | nil =>
    rw [rest, disassembleFrom] at reading
    cases reading
  | cons opcode following =>
    rw [rest, disassembleFrom] at reading
    obtain ⟨rfl, _⟩ := List.cons.inj reading
    exact ⟨opcode, following, rfl, rfl⟩

/-- A line starts where the line above it ends. -/
theorem address_eq_of_split {next : DisassemblyLine}
    (split : disassembleFrom mode address bytes = above ++ line :: next :: below) :
    next.address = line.address + line.decoded.size mode := by
  have here := (address_of_disassembleFrom_eq_append _ _ _ _ _ above split).1
  rw [List.append_cons] at split
  have there := (address_of_disassembleFrom_eq_append _ _ _ _ _ _ split).1
  rw [there, here, decodedSize_append, decodedSize_cons, decodedSize_nil, Nat.add_zero,
    Nat.add_assoc]

/-- The last line reaches to the end of what was read, or beyond it. -/
theorem le_of_split_last (split : disassembleFrom mode address bytes = above ++ [line]) :
    address + bytes.length ≤ line.address + line.decoded.size mode := by
  have here := (address_of_disassembleFrom_eq_append _ _ _ _ _ above split).1
  rw [← List.append_nil (above ++ [line])] at split
  have reading := disassembleFrom_drop split
  have nothingLeft : bytes.drop (decodedSize mode (above ++ [line])) = [] := by
    cases rest : bytes.drop (decodedSize mode (above ++ [line])) with
    | nil => rfl
    | cons opcode following =>
      rw [rest, disassembleFrom] at reading
      cases reading
  rw [List.drop_eq_nil_iff, decodedSize_append, decodedSize_cons, decodedSize_nil] at nothingLeft
  omega

end

/-- Addresses grow from line to line. -/
theorem le_address_of_mem {mode : AddressMode} {address : Nat} {bytes : List UInt8}
    {line : DisassemblyLine} (member : line ∈ disassembleFrom mode address bytes) :
    address ≤ line.address := by
  obtain ⟨above, below, lines⟩ := List.append_of_mem member
  rw [(address_of_disassembleFrom_eq_append _ _ _ _ _ above lines).1]
  exact Nat.le_add_right _ _

/-- Lines take up at least the bytes that they were read from. -/
theorem length_raw_le {mode : AddressMode} {address : Nat} {bytes : List UInt8}
    {line : DisassemblyLine} (member : line ∈ disassembleFrom mode address bytes) :
    line.raw.length ≤ line.decoded.size mode := by
  obtain ⟨opcode, following, _, raw⟩ := exists_ofBytes_of_mem member
  have positive := line.decoded.size_pos mode
  rw [raw, List.length_cons, List.length_take]
  omega

theorem map_known_knownProgram {lines : List DisassemblyLine}
    (known : ∀ line ∈ lines, line.decoded.isUnknown = false) :
    (knownProgram lines).map .known = lines.map (·.decoded) := by
  induction lines with
  | nil => rfl
  | cons line lines ih =>
    rw [List.forall_mem_cons] at known
    obtain ⟨instruction, read⟩ := exists_known_of_not_unknown known.1
    rw [knownProgram_cons read, List.map_cons, List.map_cons, read, ih known.2]

theorem codeSize_knownProgram (mode : AddressMode) {lines : List DisassemblyLine}
    (known : ∀ line ∈ lines, line.decoded.isUnknown = false) :
    codeSize mode (knownProgram lines) = decodedSize mode lines := by
  have sizes : (lines.map (·.decoded)).map (·.size mode) =
      ((knownProgram lines).map Decoded.known).map (·.size mode) := by
    rw [map_known_knownProgram known]
  rw [List.map_map, List.map_map] at sizes
  exact congrArg List.sum sizes.symm

theorem mem_knownProgram_iff {lines : List DisassemblyLine} {instruction : Instruction} :
    instruction ∈ knownProgram lines ↔ ∃ line ∈ lines, line.decoded = .known instruction := by
  rw [knownProgram, List.mem_filterMap]
  refine exists_congr fun line => and_congr_right fun _ => ?_
  cases line.decoded with
  | known other => simp [Decoded.instruction?]
  | unknown byte => simp [Decoded.instruction?]

/-- What was read fits into its encoding. -/
theorem inRange_of_mem_knownProgram {mode : AddressMode} {address : Nat} {bytes : List UInt8}
    {instruction : Instruction}
    (member : instruction ∈ knownProgram (disassembleFrom mode address bytes)) :
    instruction.InRange mode := by
  obtain ⟨line, listed, decoded⟩ := mem_knownProgram_iff.mp member
  obtain ⟨opcode, following, read, _⟩ := exists_ofBytes_of_mem listed
  exact Decoded.inRange_of_ofBytes (read.symm.trans decoded)

/-- Whether some line names a cell of RAM with the byte at an address. -/
def namesCellAt (lines : List DisassemblyLine) (index : Nat) : Bool :=
  lines.any fun line => line.decoded.namesCell && index == line.address + 1

theorem size_of_namesCell {mode : AddressMode} {decoded : Decoded}
    (names : decoded.namesCell = true) : decoded.size mode = 2 := by
  cases decoded with
  | unknown byte => cases names
  | known instruction => cases instruction <;> first | rfl | cases names

section

variable {mode : AddressMode} {address : Nat} {decoded : Decoded} {raw : List UInt8}
  {lines : List DisassemblyLine}
  (later : ∀ line ∈ lines, address + decoded.size mode ≤ line.address)

include later

theorem namesCellAt_of_lt {index : Nat} (inside : index < decoded.size mode) :
    namesCellAt (⟨address, decoded, raw⟩ :: lines) (address + index) =
      (decoded.namesCell && index == 1) := by
  have notLater : lines.any (fun line =>
      line.decoded.namesCell && address + index == line.address + 1) = false := by
    rw [List.any_eq_false]
    intro line member
    have bound := later line member
    have apart : ¬address + index = line.address + 1 := by omega
    simp [apart]
  rw [namesCellAt, List.any_cons, notLater, Bool.or_false]
  congr 1
  rw [Bool.eq_iff_iff, beq_iff_eq, beq_iff_eq]
  exact Nat.add_left_cancel_iff

/-- The bytes of the first line are masked by what this line is. -/
theorem mapIdx_namesCellAt (opcode : UInt8) {payload : List UInt8}
    (length : payload.length + 1 = decoded.size mode) :
    (opcode :: payload).mapIdx (fun index byte =>
        if namesCellAt (⟨address, decoded, raw⟩ :: lines) (address + index) then ramAddress byte
        else byte) =
      opcode :: payload.map fun byte => if decoded.namesCell then ramAddress byte else byte := by
  apply List.ext_getElem
  · rw [List.length_mapIdx, List.length_cons, List.length_cons, List.length_map]
  · intro index inside _
    rw [List.length_mapIdx, List.length_cons, length] at inside
    rw [List.getElem_mapIdx, namesCellAt_of_lt later inside]
    cases index with
    | zero => simp
    | succ index =>
      rw [List.getElem_cons_succ, List.getElem_cons_succ, List.getElem_map]
      by_cases names : decoded.namesCell
      · rw [size_of_namesCell names] at inside
        have second : index = 0 := by omega
        simp [names, second]
      · simp [names]

omit later in
theorem namesCellAt_add_size (index : Nat) :
    namesCellAt (⟨address, decoded, raw⟩ :: lines) (address + (index + decoded.size mode)) =
      namesCellAt lines (address + decoded.size mode + index) := by
  have sum : address + (index + decoded.size mode) = address + decoded.size mode + index := by omega
  have notHere :
      (decoded.namesCell && address + decoded.size mode + index == address + 1) = false := by
    cases names : decoded.namesCell with
    | false => rfl
    | true =>
      rw [size_of_namesCell names, Bool.true_and, beq_eq_false_iff_ne]
      omega
  rw [sum, namesCellAt, List.any_cons, notHere, Bool.false_or, namesCellAt]

end

/-- Filling up the bytes of the first line and those of the other lines apart from each
other fills up all of them, for only the last line can miss bytes. -/
theorem append_zeros_eq (mode : AddressMode) (address : Nat) {size : Nat} (positive : 0 < size)
    (opcode : UInt8) (following : List UInt8) :
    opcode :: following ++ List.replicate (size + decodedSize mode
        (disassembleFrom mode (address + size) (following.drop (size - 1))) -
          (opcode :: following).length) 0 =
      opcode :: (following.take (size - 1) ++ List.replicate (size - 1 - following.length) 0) ++
        (following.drop (size - 1) ++ List.replicate (decodedSize mode
            (disassembleFrom mode (address + size) (following.drop (size - 1))) -
              (following.drop (size - 1)).length) 0) := by
  by_cases whole : size - 1 ≤ following.length
  · have missing (count : Nat) : size + count - (opcode :: following).length =
        count - (following.drop (size - 1)).length := by
      rw [List.length_cons, List.length_drop]
      omega
    rw [missing, Nat.sub_eq_zero_of_le whole, List.replicate_zero, List.append_nil,
      List.cons_append, List.cons_append, ← List.append_assoc, List.take_append_drop]
  · have short : following.length ≤ size - 1 := by omega
    have missing : size - (opcode :: following).length = size - 1 - following.length := by
      rw [List.length_cons]
      omega
    rw [List.drop_of_length_le short, List.take_of_length_le short, disassembleFrom,
      decodedSize_nil, Nat.add_zero, missing]
    simp

/-- **Machine code of what was read.** It is what was read with zeros for the bytes that
were missing, except that RAM addresses have lost their upper halves. -/
theorem machineCode_disassembleFrom (mode : AddressMode) (address : Nat) (bytes : List UInt8) :
    (∀ line ∈ disassembleFrom mode address bytes, line.decoded.isUnknown = false) →
    machineCode mode (knownProgram (disassembleFrom mode address bytes)) =
      (bytes ++ List.replicate
          (decodedSize mode (disassembleFrom mode address bytes) - bytes.length) 0).mapIdx
        fun index byte =>
          if namesCellAt (disassembleFrom mode address bytes) (address + index) then
            ramAddress byte
          else byte := by
  fun_induction disassembleFrom mode address bytes with
  | case1 =>
    intro _
    rfl
  | case2 address opcode following decoded size ih =>
    intro known
    rw [List.forall_mem_cons] at known
    obtain ⟨isKnown, othersKnown⟩ := known
    have code := ih othersKnown
    have later : ∀ line ∈ disassembleFrom mode (address + size) (following.drop (size - 1)),
        address + size ≤ line.address := fun line => le_address_of_mem
    obtain ⟨instruction, read⟩ : ∃ instruction, decoded = .known instruction :=
      exists_known_of_not_unknown isKnown
    have encoding := Decoded.encode_of_ofBytes read
    have sameSize : instruction.size mode = size := (congrArg (Decoded.size mode) read).symm
    rw [sameSize, ← read] at encoding
    have positive : 0 < size := decoded.size_pos mode
    have length : (following.take (size - 1) ++
        List.replicate (size - 1 - following.length) (0 : UInt8)).length + 1 = size := by
      rw [List.length_append, List.length_take, List.length_replicate]
      omega
    have sizes : decodedSize mode (⟨address, decoded, opcode :: following.take (size - 1)⟩ ::
        disassembleFrom mode (address + size) (following.drop (size - 1))) =
        size + decodedSize mode
          (disassembleFrom mode (address + size) (following.drop (size - 1))) :=
      decodedSize_cons mode _ _
    rw [sizes, append_zeros_eq mode address positive, List.mapIdx_append,
      mapIdx_namesCellAt later opcode length, knownProgram_cons read, machineCode_cons, encoding,
      code, List.length_cons, length]
    simp only [size, namesCellAt_add_size]

end Breadboard
