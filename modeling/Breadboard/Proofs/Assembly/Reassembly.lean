import Breadboard.Proofs.Assembly.Disassembly
import Breadboard.Proofs.Assembly.Faults
import Breadboard.Proofs.Assembly.Printed
import Breadboard.Proofs.Image.Canonical

/-!
# Assembling a disassembly

The outcome of disassembling any bytes and assembling the result is known in advance. It
fails at the first byte that is no opcode, else if the decoded instructions do not fit
into ROM, else at the first jump past the end of ROM; these are the faults of the two
passes in the order in which the passes meet them. Otherwise it gives the bytes again,
where the last instruction is completed with zeros and RAM addresses have lost their
upper halves. So the bytes come back unchanged exactly if they are `Canonical`, which
every image that was assembled without filling is.
-/

namespace Breadboard

/-- What is seen of an assembly: the bytes, or the number of the faulty line and the
fault. -/
def outcome : Except CompileError Image → Except (Nat × Fault) (List UInt8)
  | .ok image => .ok image.bytes
  | .error failure => .error (failure.line, failure.fault)

/-- The first fault that is found in the lines of a disassembly, with the number of its
line. -/
def firstFault? (fault? : Decoded → Option Fault) (number : Nat) :
    List DisassemblyLine → Option (Nat × Fault)
  | [] => none
  | line :: rest =>
    match fault? line.decoded with
    | some fault => some (number, fault)
    | none => firstFault? fault? (number + 1) rest

namespace Decoded

/-- A byte that is no opcode is printed with a word that is no mnemonic. -/
def unknownFault? : Decoded → Option Fault
  | known _ => none
  | unknown _ => some (.unknownMnemonic "???")

/-- A jump past the end of ROM. -/
def targetFault? : Decoded → Option Fault
  | known (.jump _ target) =>
    if romSize ≤ target.toNat then some (.romAddressOutOfRange target.toNat romSize) else none
  | known _ | unknown _ => none

end Decoded

/-- Decoded instructions that do not fit into ROM. -/
def sizeFault? (mode : AddressMode) (lines : List DisassemblyLine) : Option (Nat × Fault) :=
  if romSize < decodedSize mode lines then
    some (lines.length, .programTooLarge (decodedSize mode lines))
  else none

/-- The bytes that fit into ROM, with zeros for those that the last instruction misses and
without the upper halves of RAM addresses. -/
def completed (mode : AddressMode) (image : List UInt8) : List UInt8 :=
  let lines := disassemble mode image
  let bytes := image.take romSize
  (bytes ++ List.replicate (decodedSize mode lines - bytes.length) 0).mapIdx fun index byte =>
    if namesCellAt lines index then ramAddress byte else byte

/-- The outcome of disassembling bytes and assembling the result. -/
def reassembled (mode : AddressMode) (image : List UInt8) : Except (Nat × Fault) (List UInt8) :=
  let lines := disassemble mode image
  match firstFault? Decoded.unknownFault? 1 lines <|> sizeFault? mode lines <|>
      firstFault? Decoded.targetFault? 1 lines with
  | some fault => .error fault
  | none => .ok (completed mode image)

theorem firstFault?_eq_some {fault? : Decoded → Option Fault} {fault : Fault}
    {lines : List DisassemblyLine} {number faulty : Nat}
    (found : firstFault? fault? number lines = some (faulty, fault)) :
    ∃ above line below, lines = above ++ line :: below ∧ faulty = above.length + number ∧
      fault? line.decoded = some fault ∧ ∀ other ∈ above, fault? other.decoded = none := by
  induction lines generalizing number with
  | nil => cases found
  | cons line rest ih =>
    rw [firstFault?] at found
    split at found
    next here =>
      cases found
      exact ⟨[], line, rest, rfl, (Nat.zero_add _).symm, here, nofun⟩
    next noneHere =>
      obtain ⟨above, other, below, rfl, rfl, later, clean⟩ := ih found
      refine ⟨line :: above, other, below, rfl, ?_, later,
        List.forall_mem_cons.mpr ⟨noneHere, clean⟩⟩
      rw [List.length_cons]
      omega

theorem firstFault?_eq_none_iff (fault? : Decoded → Option Fault) (number : Nat)
    (lines : List DisassemblyLine) :
    firstFault? fault? number lines = none ↔ ∀ line ∈ lines, fault? line.decoded = none := by
  induction lines generalizing number with
  | nil => exact ⟨fun _ => nofun, fun _ => rfl⟩
  | cons line rest ih =>
    rw [firstFault?, List.forall_mem_cons, ← ih (number + 1)]
    cases fault? line.decoded <;> simp

theorem Decoded.unknownFault?_eq_none_iff (decoded : Decoded) :
    decoded.unknownFault? = none ↔ decoded.isUnknown = false := by
  cases decoded <;> simp [unknownFault?, isUnknown]

theorem Decoded.targetFault?_eq_none_iff (decoded : Decoded) :
    decoded.targetFault? = none ↔
      ∀ condition target, decoded = known (.jump condition target) → target.toNat < romSize := by
  cases decoded with
  | unknown byte => simp [targetFault?]
  | known instruction => cases instruction <;> simp [targetFault?]

theorem Decoded.targetFault?_eq_some {decoded : Decoded} {fault : Fault}
    (found : decoded.targetFault? = some fault) :
    ∃ condition target, decoded = known (.jump condition target) ∧ romSize ≤ target.toNat ∧
      fault = .romAddressOutOfRange target.toNat romSize := by
  unfold targetFault? at found
  split at found
  next condition target =>
    split at found
    next outside =>
      cases found
      exact ⟨condition, target, rfl, outside, rfl⟩
    next => cases found
  all_goals cases found

theorem exists_of_forall₂_append_cons {α β : Type} {related : α → β → Prop} {left : List α}
    {above below : List β} {item : β} (all : List.Forall₂ related left (above ++ item :: below)) :
    ∃ front other back, left = front ++ other :: back ∧ List.Forall₂ related front above ∧
      related other item := by
  induction above generalizing left with
  | nil =>
    obtain ⟨other, back, here, _, rfl⟩ := List.forall₂_cons_right_iff.mp all
    exact ⟨[], other, back, rfl, .nil, here⟩
  | cons first above ih =>
    obtain ⟨start, rest, here, later, rfl⟩ := List.forall₂_cons_right_iff.mp all
    obtain ⟨front, other, back, rfl, others, found⟩ := ih later
    exact ⟨start :: front, other, back, rfl, .cons here others, found⟩

section

variable {mode : AddressMode} {signedness : Signedness} {image : List UInt8}
  {above below : List DisassemblyLine} {line : DisassemblyLine}
  (split : disassemble mode image = above ++ line :: below)

include split

theorem decodedSize_above_lt : decodedSize mode above < romSize := by
  obtain ⟨same, inside⟩ := address_of_disassembleFrom_eq_append _ _ _ _ _ above split
  rw [List.length_take] at inside
  omega

/-- The lines that print a disassembly are split where the disassembly is. -/
theorem exists_printed_lines :
    ∃ front source back, readSource (sourceOfImage mode image) = .ok (front ++ source :: back) ∧
      List.Forall₂ Prints (front ++ source :: back) ((disassemble mode image).map (·.decoded)) ∧
      List.Forall₂ Prints front (above.map (·.decoded)) ∧ Prints source line.decoded ∧
      source.raw.number = above.length + 1 := by
  have someLine : disassemble mode image ≠ [] := by simp [split]
  obtain ⟨lines, read, prints, numbered⟩ := readSource_sourceOfImage mode image someLine
  have all := prints
  rw [split, List.map_append, List.map_cons] at all
  obtain ⟨front, source, back, rfl, printsFront, printsSource⟩ := exists_of_forall₂_append_cons all
  refine ⟨front, source, back, read, prints, printsFront, printsSource, ?_⟩
  have number := numbered front.length source (by simp)
  rw [number, printsFront.length_eq, List.length_map]

/-- The first line that the first pass refuses decides the outcome. -/
theorem outcome_of_place_error (known : ∀ other ∈ above, other.decoded.isUnknown = false)
    {fault : Fault} (stops : ∀ source, Prints source line.decoded → ∃ span,
      source.place mode (decodedSize mode above) {} = .error (source.error span fault)) :
    outcome (assemble ⟨mode, signedness, false⟩ (sourceOfImage mode image)) =
      .error (above.length + 1, fault) := by
  obtain ⟨front, source, back, read, _, printsFront, printsSource, number⟩ :=
    exists_printed_lines split
  obtain ⟨span, stopped⟩ := stops source printsSource
  have start : 0 ≤ romSize := Nat.zero_le _
  have noneYet : ((Symbols.mk []).entries.map Prod.fst).Nodup := List.nodup_nil
  have inRom := decodedSize_above_lt split
  rw [← map_known_knownProgram known] at printsFront
  rw [← codeSize_knownProgram mode known] at inRom stopped
  have placed : placeFrom mode 0 {} front = (none, {}) :=
    placeFrom_of_prints printsFront {} (by omega)
  have failed : (placeFrom mode 0 {} (front ++ source :: back)).1 =
      some (source.error span fault) := by
    rw [placeFrom_append start noneYet placed, totalSize_of_prints printsFront, Nat.zero_add,
      placeFrom, stopped]
  rw [assemble_eq_error_of_place read failed, outcome, Line.error, RawLine.error, number]

/-- If the first pass gets through, the first line that the second pass refuses decides the
outcome. -/
theorem outcome_of_emit_error
    (known : ∀ other ∈ disassemble mode image, other.decoded.isUnknown = false)
    (fits : decodedSize mode (disassemble mode image) ≤ romSize)
    (inRom : ∀ other ∈ above, ∀ condition target,
      other.decoded = .known (.jump condition target) → target.toNat < romSize)
    {fault : Fault} (stops : ∀ source address, Prints source line.decoded → ∃ span,
      source.emit ⟨mode, signedness, false⟩ {} address = .error (source.error span fault)) :
    outcome (assemble ⟨mode, signedness, false⟩ (sourceOfImage mode image)) =
      .error (above.length + 1, fault) := by
  obtain ⟨front, source, back, read, prints, printsFront, printsSource, number⟩ :=
    exists_printed_lines split
  have below : ∀ other ∈ above, other ∈ disassemble mode image := by
    intro other member
    rw [split]
    exact List.mem_append_left _ member
  have aboveKnown : ∀ other ∈ above, other.decoded.isUnknown = false := fun other member =>
    known other (below other member)
  rw [← codeSize_knownProgram mode known] at fits
  rw [← map_known_knownProgram known] at prints
  rw [← map_known_knownProgram aboveKnown] at printsFront
  have placed : placeFrom mode 0 {} (front ++ source :: back) = (none, {}) :=
    placeFrom_of_prints prints {} (by rwa [Nat.zero_add])
  have aboveFits := decodedSize_above_lt split
  rw [← codeSize_knownProgram mode aboveKnown] at aboveFits
  have resolves :
      Resolves ⟨mode, signedness, false⟩ (fun _ _ => False) front (knownProgram above) := by
    refine resolves_of_prints printsFront _ ?_ ?_
    · intro instruction member
      obtain ⟨other, listed, decoded⟩ := mem_knownProgram_iff.mp member
      exact inRange_of_mem_knownProgram
        (mem_knownProgram_iff.mpr ⟨other, below other listed, decoded⟩)
    · rintro instruction member condition target rfl
      obtain ⟨other, listed, decoded⟩ := mem_knownProgram_iff.mp member
      exact inRom other listed condition target decoded
  have frontFits : 0 + codeSize mode (knownProgram above) ≤ romSize := by omega
  have emitted := (emitFrom_eq_none_iff Symbols.get?_empty_iff 0 (Nat.zero_le _) front _).mpr
    ⟨knownProgram above, resolves, frontFits, rfl⟩
  obtain ⟨span, stopped⟩ := stops source
    (0 + (listingBytes (listingFrom mode 0 front (knownProgram above))).length) printsSource
  have failed : (emitFrom ⟨mode, signedness, false⟩ {} 0 (front ++ source :: back)).1 =
      some (source.error span fault) := by
    rw [emitFrom_append emitted, emitFrom, stopped]
  rw [assemble_eq_error_of_emit read placed failed, outcome, Line.error, RawLine.error, number]

end

section

variable {mode : AddressMode} {image : List UInt8}
  (known : ∀ line ∈ disassemble mode image, line.decoded.isUnknown = false)

include known

/-- The program that is printed is read again, without any label. -/
theorem exists_resolved_lines (options : AssemblyOptions) (sameMode : options.mode = mode)
    (inRom : ∀ line ∈ disassemble mode image, ∀ condition target,
      line.decoded = .known (.jump condition target) → target.toNat < romSize) :
    ∃ lines, readSource (sourceOfImage mode image) = .ok lines ∧
      (∀ labels, Resolves options labels lines (knownProgram (disassemble mode image))) ∧
      lines.filterMap Line.label? = [] := by
  subst sameMode
  by_cases noLine : disassemble options.mode image = []
  · refine ⟨[⟨⟨1, 0, []⟩, .blank⟩], ?_, ?_, rfl⟩
    · rw [sourceOfImage, noLine]
      decide +kernel
    · rw [noLine]
      exact fun labels => .nil
  · obtain ⟨lines, read, prints, _⟩ := readSource_sourceOfImage options.mode image noLine
    have noLabel := filterMap_label?_of_prints prints
    rw [← map_known_knownProgram known] at prints
    refine ⟨lines, read, fun labels => resolves_of_prints prints labels ?_ ?_, noLabel⟩
    · exact fun instruction => inRange_of_mem_knownProgram
    · rintro instruction member condition target rfl
      obtain ⟨line, listed, decoded⟩ := mem_knownProgram_iff.mp member
      exact inRom line listed condition target decoded

theorem machineCode_knownProgram :
    machineCode mode (knownProgram (disassemble mode image)) = completed mode image := by
  have code := machineCode_disassembleFrom mode 0 (image.take romSize) known
  simp only [Nat.zero_add] at code
  exact code

/-- Without any fault, the completed bytes are assembled. -/
theorem outcome_of_no_fault (signedness : Signedness)
    (fits : decodedSize mode (disassemble mode image) ≤ romSize)
    (inRom : ∀ line ∈ disassemble mode image, ∀ condition target,
      line.decoded = .known (.jump condition target) → target.toNat < romSize) :
    outcome (assemble ⟨mode, signedness, false⟩ (sourceOfImage mode image)) =
      .ok (completed mode image) := by
  obtain ⟨lines, read, resolves, noLabel⟩ :=
    exists_resolved_lines known ⟨mode, signedness, false⟩ rfl inRom
  have size := (resolves (DeclaredAt mode lines)).codeSize_eq
  rw [codeSize_knownProgram mode known] at size
  have noEntry : labelsFrom mode 0 lines = [] := by
    rw [← List.map_eq_nil_iff, map_fst_labelsFrom, noLabel]
  have assembled : Assembled ⟨mode, signedness, false⟩ lines
      (knownProgram (disassemble mode image)) ⟨completed mode image,
        listingFrom mode 0 lines (knownProgram (disassemble mode image)), {}⟩ :=
    { resolved := resolves _
      distinct := by simp [noLabel]
      fits := (fits_iff_totalSize_le mode lines).mpr (by rwa [size])
      bytes := ⟨0, by simp [machineCode_knownProgram known], rfl⟩
      symbols := noEntry.symm
      listing := rfl }
  rw [assembled.assemble_eq_ok read, outcome]

end

section

variable (mode : AddressMode) (signedness : Signedness) (image : List UInt8)

theorem outcome_of_unknown {number : Nat} {fault : Fault}
    (found : firstFault? Decoded.unknownFault? 1 (disassemble mode image) = some (number, fault)) :
    outcome (assemble ⟨mode, signedness, false⟩ (sourceOfImage mode image)) =
      .error (number, fault) := by
  obtain ⟨above, line, below, split, rfl, faulty, clean⟩ := firstFault?_eq_some found
  have known : ∀ other ∈ above, other.decoded.isUnknown = false := fun other member =>
    other.decoded.unknownFault?_eq_none_iff.mp (clean other member)
  cases read : line.decoded with
  | known instruction =>
    rw [read] at faulty
    cases faulty
  | unknown byte =>
    rw [read] at faulty
    cases faulty
    refine outcome_of_place_error split known fun source prints => ?_
    rw [read] at prints
    exact place_of_prints_unknown prints _ _

variable (known : ∀ line ∈ disassemble mode image, line.decoded.isUnknown = false)

include known

/-- A program that is too large is refused at its last instruction, the only one that can
be cut off. -/
theorem outcome_of_too_large (large : romSize < decodedSize mode (disassemble mode image)) :
    outcome (assemble ⟨mode, signedness, false⟩ (sourceOfImage mode image)) =
      .error ((disassemble mode image).length,
        .programTooLarge (decodedSize mode (disassemble mode image))) := by
  rcases List.eq_nil_or_concat' (disassemble mode image) with noLine | ⟨above, line, split⟩
  · rw [noLine] at large
    cases large
  · rw [split, List.forall_mem_append, List.forall_mem_singleton] at known
    obtain ⟨aboveKnown, lineKnown⟩ := known
    have total : decodedSize mode (disassemble mode image) =
        decodedSize mode above + line.decoded.size mode := by
      rw [split]
      simp [decodedSize]
    rw [outcome_of_place_error split aboveKnown, split, List.length_append, List.length_singleton]
    intro source prints
    cases read : line.decoded with
    | unknown byte =>
      rw [read] at lineKnown
      cases lineKnown
    | known instruction =>
      rw [read] at prints total
      rw [total] at large
      refine ⟨source.raw.span, ?_⟩
      rw [place_of_prints prints, ← split, total]
      exact if_pos large

/-- A jump past the end of ROM is refused; with one byte for its target there is none. -/
theorem outcome_of_target (fits : decodedSize mode (disassemble mode image) ≤ romSize)
    {number : Nat} {fault : Fault}
    (found : firstFault? Decoded.targetFault? 1 (disassemble mode image) = some (number, fault)) :
    outcome (assemble ⟨mode, signedness, false⟩ (sourceOfImage mode image)) =
      .error (number, fault) := by
  obtain ⟨above, line, below, split, rfl, faulty, clean⟩ := firstFault?_eq_some found
  have inRom := fun other member =>
    (Decoded.targetFault?_eq_none_iff _).mp (clean other member)
  obtain ⟨condition, target, read, outside, rfl⟩ := line.decoded.targetFault?_eq_some faulty
  have listed : line ∈ disassemble mode image := by simp [split]
  have inRange : (Instruction.jump condition target).InRange mode :=
    inRange_of_mem_knownProgram (mem_knownProgram_iff.mpr ⟨line, listed, read⟩)
  have limit : mode.limit = romSize := by
    cases mode with
    | eightBit => exact absurd (inRange rfl) (by unfold romSize at outside; omega)
    | elevenBit => rfl
  refine outcome_of_emit_error split known fits inRom fun source address prints => ?_
  rw [read] at prints
  have outsideMode : mode.limit ≤ target.toNat := by rwa [limit]
  obtain ⟨span, stopped⟩ :=
    emit_of_prints_jump ⟨mode, signedness, false⟩ prints outsideMode {} address
  rw [limit] at stopped
  exact ⟨span, stopped⟩

end

/-- The outcome does not depend on which constants are accepted. -/
theorem outcome_assemble_sourceOfImage (mode : AddressMode) (signedness : Signedness)
    (image : List UInt8) :
    outcome (assemble ⟨mode, signedness, false⟩ (sourceOfImage mode image)) =
      reassembled mode image := by
  cases unknown : firstFault? Decoded.unknownFault? 1 (disassemble mode image) with
  | some found =>
    rw [outcome_of_unknown mode signedness image unknown, reassembled, unknown]
    rfl
  | none =>
    have known : ∀ line ∈ disassemble mode image, line.decoded.isUnknown = false :=
      fun line member => line.decoded.unknownFault?_eq_none_iff.mp
        ((firstFault?_eq_none_iff _ _ _).mp unknown line member)
    by_cases large : romSize < decodedSize mode (disassemble mode image)
    · rw [outcome_of_too_large mode signedness image known large, reassembled, unknown, sizeFault?,
        if_pos large]
      rfl
    · cases far : firstFault? Decoded.targetFault? 1 (disassemble mode image) with
      | some found =>
        rw [outcome_of_target mode signedness image known (Nat.not_lt.mp large) far, reassembled,
          unknown, sizeFault?, if_neg large, far]
        rfl
      | none =>
        have inRom := fun line member => (Decoded.targetFault?_eq_none_iff _).mp
          ((firstFault?_eq_none_iff _ _ _).mp far line member)
        rw [outcome_of_no_fault known signedness (Nat.not_lt.mp large) inRom, reassembled, unknown,
          sizeFault?, if_neg large, far]
        rfl

/-- Bytes come back unchanged exactly if they are canonical. -/
theorem reassembled_eq_ok_iff (mode : AddressMode) (image : List UInt8) :
    reassembled mode image = .ok image ↔ Canonical mode image := by
  have unknown := firstFault?_eq_none_iff Decoded.unknownFault? 1 (disassemble mode image)
  have far := firstFault?_eq_none_iff Decoded.targetFault? 1 (disassemble mode image)
  simp only [Decoded.unknownFault?_eq_none_iff, Decoded.targetFault?_eq_none_iff] at unknown far
  rw [canonical_iff, ← unknown, ← far]
  constructor
  · intro success
    rw [reassembled] at success
    split at success
    next => cases success
    next noFault =>
      simp only [Option.orElse_eq_orElse, Option.orElse_eq_or, Option.or_eq_none_iff] at noFault
      obtain ⟨noUnknown, noSize, noTarget⟩ := noFault
      have fits : decodedSize mode (disassemble mode image) ≤ romSize := by
        by_contra large
        rw [sizeFault?, if_pos (Nat.not_le.mp large)] at noSize
        cases noSize
      refine ⟨noUnknown, noTarget, fits, ?_⟩
      rw [machineCode_knownProgram (unknown.mp noUnknown)]
      exact Except.ok.inj success
  · intro described
    obtain ⟨noUnknown, noTarget, fits, code⟩ := described
    rw [machineCode_knownProgram (unknown.mp noUnknown)] at code
    rw [reassembled, noUnknown, noTarget, sizeFault?, if_neg (Nat.not_lt.mpr fits)]
    exact congrArg Except.ok code

/-- Whatever is assembled without filling is canonical. -/
theorem Assembled.canonical {options : AssemblyOptions} {lines : List Line}
    {program : List Instruction} {image : Image} (assembled : Assembled options lines program image)
    (unpadded : options.padded = false) : Canonical options.mode image.bytes := by
  have resolves := assembled.resolved
  have decoded : (disassemble options.mode image.bytes).map (·.decoded) = program.map .known := by
    rw [assembled.disassemble_eq unpadded, map_decoded_programLines resolves.inRange]
  have known : ∀ line ∈ disassemble options.mode image.bytes,
      ∃ instruction ∈ program, line.decoded = .known instruction := by
    intro line member
    have listed : line.decoded ∈ program.map .known := decoded ▸ List.mem_map_of_mem member
    obtain ⟨instruction, present, same⟩ := List.mem_map.mp listed
    exact ⟨instruction, present, same.symm⟩
  have allKnown : ∀ line ∈ disassemble options.mode image.bytes,
      line.decoded.isUnknown = false := by
    intro line member
    obtain ⟨instruction, _, read⟩ := known line member
    rw [read, Decoded.isUnknown]
  have sameProgram : knownProgram (disassemble options.mode image.bytes) = program := by
    have both := map_known_knownProgram allKnown
    rw [decoded] at both
    exact List.map_injective_iff.mpr (fun _ _ => Decoded.known.inj) both
  rw [canonical_iff, ← codeSize_knownProgram _ allKnown, sameProgram]
  refine ⟨allKnown, ?_, assembled.codeSize_le, (assembled.bytes_eq_of_unpadded unpadded).symm⟩
  intro line member condition target read
  obtain ⟨instruction, present, same⟩ := known line member
  rw [read] at same
  cases same
  exact resolves.target_lt condition target present

/-- **The exact outcome of assembling a disassembly.** The bytes come back unchanged
exactly if they are canonical, and everything that was assembled without filling is. -/
theorem assemble_disassembly :
    (∀ mode signedness image,
      outcome (assemble ⟨mode, signedness, false⟩ (sourceOfImage mode image)) =
        reassembled mode image) ∧
    (∀ mode signedness image,
      outcome (assemble ⟨mode, signedness, false⟩ (sourceOfImage mode image)) = .ok image ↔
        Canonical mode image) ∧
    (∀ options source image, options.padded = false → assemble options source = .ok image →
      Canonical options.mode image.bytes) := by
  refine ⟨outcome_assemble_sourceOfImage, ?_, ?_⟩
  · intro mode signedness image
    rw [outcome_assemble_sourceOfImage, reassembled_eq_ok_iff]
  · intro options source image unpadded success
    obtain ⟨lines, program, _, assembled⟩ := assembled_of_assemble success
    exact assembled.canonical unpadded

theorem assemble_disassembly_of_cut_off_jump :
    outcome (assemble ⟨.elevenBit, .signed, false⟩
        (sourceOfImage .elevenBit [0x14, 0x25, 0x05, 0x01])) =
        .ok [0x14, 0x05, 0x05, 0x01, 0x00] ∧
      ¬Canonical .elevenBit [0x14, 0x25, 0x05, 0x01] ∧
      Canonical .elevenBit [0x14, 0x05, 0x05, 0x00, 0x00] := by
  obtain ⟨outcomes, unchanged, canonical⟩ := assemble_disassembly
  have completion : reassembled .elevenBit [0x14, 0x25, 0x05, 0x01] =
      .ok [0x14, 0x05, 0x05, 0x01, 0x00] := by decide +kernel
  have completes := (outcomes .elevenBit .signed [0x14, 0x25, 0x05, 0x01]).trans completion
  have success : assemble {} "loop:\n ldm a 5\n jmp Loop" =
      .ok ⟨[0x14, 0x05, 0x05, 0x00, 0x00],
        [⟨1, 0, [], "LOOP:"⟩, ⟨2, 0, [0x14, 5], "LDM A 5"⟩, ⟨3, 2, [0x05, 0, 0], "JMP LOOP"⟩],
        ⟨[("LOOP", 0)]⟩⟩ := by decide +kernel
  refine ⟨completes, fun same => ?_, canonical {} _ _ rfl success⟩
  have kept := (unchanged .elevenBit .signed _).mpr same
  rw [completes] at kept
  exact absurd (Except.ok.inj kept) (by decide)

end Breadboard
