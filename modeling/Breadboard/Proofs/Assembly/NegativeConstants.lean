import Breadboard.Proofs.Assembly.Faults
import Breadboard.Proofs.Assembly.Interruption

/-!
# Negative constants

Whether negative constants are accepted matters to the lines that hold one and to nothing else. A
second pass that accepts them and one that does not keep in step up to the first such line
(`emitFrom_unsigned`), which the one lists in two's complement and the other refuses. So unsigned
constants are a restriction: they change no image, and what they refuse is the first negative
constant of a text (`unsigned_restricts_signed`).
-/

namespace Breadboard

/-- The same choices, with the given constants accepted. -/
def AssemblyOptions.accepting (signedness : Signedness) (options : AssemblyOptions) :
    AssemblyOptions :=
  { options with signedness := signedness }

/-- The constant among operands, if the mnemonic takes one. -/
def constantAmong? : Mnemonic → List Word → Option Word
  | .immediate _, [_, constant] => some constant
  | _, _ => none

/-- The constant of a line, if its mnemonic takes one. -/
def Line.constant? (line : Line) : Option Word := do
  let (head, operands) ← line.instruction?
  constantAmong? (← Mnemonic.ofText? head.text) operands

/-- A negative number is written as the constant of the line. -/
structure Line.Negative (line : Line) (constant : Word) (number : Int) : Prop where
  holds : line.constant? = some constant
  written : constant.Writes number
  negative : number < 0

/-- No line holds a negative constant. -/
def NoneNegative (lines : List Line) : Prop :=
  ∀ line ∈ lines, ∀ constant number, ¬line.Negative constant number

theorem exists_of_constantAmong? {mnemonic : Mnemonic} {operands : List Word} {constant : Word}
    (among : constantAmong? mnemonic operands = some constant) :
    ∃ op register, mnemonic = .immediate op ∧ operands = [register, constant] := by
  unfold constantAmong? at among
  split at among
  next op register found =>
    cases among
    exact ⟨op, register, rfl, rfl⟩
  next => cases among

section

variable {options : AssemblyOptions} {symbols : Symbols}

/-- Without a constant, it does not matter which ones are accepted. -/
theorem readInstruction_accepting {head : Word} {mnemonic : Mnemonic} {operands : List Word}
    (noConstant : constantAmong? mnemonic operands = none) (first second : Signedness) :
    readInstruction (options.accepting first) symbols head mnemonic operands =
      readInstruction (options.accepting second) symbols head mnemonic operands := by
  unfold readInstruction
  split <;> first | rfl | cases noConstant

/-- **A constant that is read as a signed one** is not negative and read as an unsigned one, too,
or it is refused. -/
theorem Word.readImmediate_unsigned {word : Word} {value : UInt8}
    (read : word.readImmediate .signed = .ok value) :
    ∃ number, word.Writes number ∧
      (0 ≤ number ∧ word.readImmediate .unsigned = .ok value ∨
        (-128 ≤ number ∧ number < 0) ∧ (value.toNat : Int) = number + 256 ∧
          word.readImmediate .unsigned =
            .error (word.span, .immediateOutOfRange number .unsigned)) := by
  obtain ⟨number, written, ⟨low, high⟩, stored⟩ := (word.readImmediate_eq_ok_iff _ _).mp read
  refine ⟨number, written, ?_⟩
  by_cases negative : number < 0
  · have least : -128 ≤ number := low
    have outside : ¬(Signedness.unsigned.lowest ≤ number ∧ number ≤ 255) :=
      fun inside => absurd inside.1 (Int.not_le.mpr negative)
    refine .inr ⟨⟨least, negative⟩, by omega, ?_⟩
    refine (bind_eq_error_iff _ _ _).mpr
      (.inr ⟨number, (word.readNumber_eq_ok_iff number).mpr written, ?_⟩)
    rw [Signedness.byte?, if_neg outside]
  · have positive : 0 ≤ number := Int.not_lt.mp negative
    exact .inl ⟨positive,
      (word.readImmediate_eq_ok_iff _ _).mpr ⟨number, written, ⟨positive, high⟩, stored⟩⟩

/-- What becomes of the words of a line if negative constants are no longer accepted. -/
theorem readLine_unsigned {line : Line} {head : Word} {operands : List Word}
    {instruction : Instruction} (present : line.instruction? = some (head, operands))
    (read : readLine (options.accepting .signed) symbols head operands = .ok instruction) :
    ((∀ constant number, ¬line.Negative constant number) ∧
      readLine (options.accepting .unsigned) symbols head operands = .ok instruction) ∨
    ∃ constant number op register value, line.Negative constant number ∧ -128 ≤ number ∧
      readLine (options.accepting .unsigned) symbols head operands =
        .error (constant.span, .immediateOutOfRange number .unsigned) ∧
      instruction = .immediate op register value ∧ (value.toNat : Int) = number + 256 := by
  obtain ⟨mnemonic, named, rest⟩ := (bind_eq_ok_iff _ _ _).mp read
  have found : line.constant? = constantAmong? mnemonic operands := by
    rw [Line.constant?, present]
    change (Mnemonic.ofText? head.text).bind _ = _
    rw [(Mnemonic.ofText?_eq_some_iff _ _).mpr ((head.readMnemonic_eq_ok_iff _).mp named),
      Option.bind_some]
  have unsigned : readLine (options.accepting .unsigned) symbols head operands =
      readInstruction (options.accepting .unsigned) symbols head mnemonic operands := by
    rw [readLine, named]
    rfl
  rw [unsigned]
  cases among : constantAmong? mnemonic operands with
  | none =>
    refine .inl ⟨?_, ?_⟩
    · intro constant number negative
      rw [negative.holds, among] at found
      cases found
    · rw [readInstruction_accepting among .unsigned .signed, rest]
  | some constant =>
    obtain ⟨op, register, rfl, rfl⟩ := exists_of_constantAmong? among
    obtain ⟨place, onRegister, readConstant⟩ := (bind_eq_ok_iff _ _ _).mp rest
    obtain ⟨value, accepted, made⟩ := (bind_eq_ok_iff _ _ _).mp readConstant
    cases made
    rw [among] at found
    obtain ⟨number, written, ⟨positive, again⟩ | ⟨range, stored, refused⟩⟩ :=
      Word.readImmediate_unsigned accepted
    · refine .inl ⟨?_, ?_⟩
      · intro other otherNumber negative
        have same := found.symm.trans negative.holds
        cases same
        have sameNumber := written.symm.trans negative.written
        cases sameNumber
        exact absurd negative.negative (Int.not_lt.mpr positive)
      · rw [readInstruction, onRegister]
        change (constant.readImmediate .unsigned >>= _) = _
        rw [again]
        rfl
    · refine .inr ⟨constant, number, op, place, value, ⟨found, written, range.2⟩, range.1, ?_, rfl,
        stored⟩
      rw [readInstruction, onRegister]
      change (constant.readImmediate .unsigned >>= _) = _
      rw [refused]
      rfl

/-- **What becomes of a line** if negative constants are no longer accepted. It is emitted as
before, or it holds one and is refused for it. -/
theorem Line.emit_unsigned {line : Line} {address : Nat} {shown? : Option ListingEntry}
    (emitted : line.emit (options.accepting .signed) symbols address = .ok shown?) :
    ((∀ constant number, ¬line.Negative constant number) ∧
      line.emit (options.accepting .unsigned) symbols address = .ok shown?) ∨
    ∃ constant number opcode payload, line.Negative constant number ∧ -128 ≤ number ∧
      line.emit (options.accepting .unsigned) symbols address =
        .error (line.error constant.span (.immediateOutOfRange number .unsigned)) ∧
      shown? = some ⟨line.raw.number, address, [opcode, payload], line.text⟩ ∧
      (payload.toNat : Int) = number + 256 := by
  obtain ⟨raw, content⟩ := line
  cases content with
  | blank | label =>
    refine .inl ⟨?_, emitted⟩
    intro constant number negative
    cases negative.holds
  | instruction head operands =>
    have reading (signedness : Signedness) : (head.readMnemonic >>= fun mnemonic =>
        readInstruction (options.accepting signedness) symbols head mnemonic operands) =
          readLine (options.accepting signedness) symbols head operands := rfl
    simp only [Line.emit, reading] at emitted ⊢
    cases read : readLine (options.accepting .signed) symbols head operands with
    | error failure =>
      rw [read] at emitted
      cases emitted
    | ok instruction =>
      rw [read] at emitted
      have present : (⟨raw, .instruction head operands⟩ : Line).instruction? =
          some (head, operands) := rfl
      obtain ⟨noneNegative, same⟩ | ⟨constant, number, op, register, value, negative, least,
        refused, rfl, stored⟩ := readLine_unsigned present read
      · rw [same]
        exact .inl ⟨noneNegative, emitted⟩
      · refine .inr ⟨constant, number, (Instruction.immediate op register value).opcode, value,
          negative, least, ?_, ?_, stored⟩
        · rw [refused]
        · dsimp only at emitted
          split at emitted
          · cases emitted
          · exact (Except.ok.inj emitted).symm

/-- **What becomes of a second pass** if negative constants are no longer accepted. It goes as
before, or it stops at the first line that holds one. -/
theorem emitFrom_unsigned {lines : List Line} {address : Nat} {entries : List ListingEntry}
    (emitted : emitFrom (options.accepting .signed) symbols address lines = (none, entries)) :
    (NoneNegative lines ∧
      emitFrom (options.accepting .unsigned) symbols address lines = (none, entries)) ∨
    ∃ above line below constant number opcode payload start, lines = above ++ line :: below ∧
      NoneNegative above ∧ line.Negative constant number ∧ -128 ≤ number ∧
      (emitFrom (options.accepting .unsigned) symbols address lines).1 =
        some (line.error constant.span (.immediateOutOfRange number .unsigned)) ∧
      ⟨line.raw.number, start, [opcode, payload], line.text⟩ ∈ entries ∧
      (payload.toNat : Int) = number + 256 := by
  induction lines generalizing address entries with
  | nil => exact .inl ⟨nofun, emitted⟩
  | cons line lines ih =>
    cases here : line.emit (options.accepting .signed) symbols address with
    | error failure =>
      rw [emitFrom, here] at emitted
      cases emitted
    | ok shown? =>
      rw [emitFrom_cons here, Prod.mk.injEq] at emitted
      obtain ⟨through, rfl⟩ := emitted
      obtain ⟨noneHere, same⟩ | ⟨constant, number, opcode, payload, negative, least, refused, rfl,
        stored⟩ := Line.emit_unsigned here
      · rw [emitFrom_cons same]
        obtain ⟨noneBelow, rest⟩ | ⟨above, other, below, constant, number, opcode, payload, start,
          rfl, noneAbove, negative, least, refused, listed, stored⟩ := ih (Prod.ext through rfl)
        · refine .inl ⟨List.forall_mem_cons.mpr ⟨noneHere, noneBelow⟩, ?_⟩
          rw [rest]
        · exact .inr ⟨line :: above, other, below, constant, number, opcode, payload, start, rfl,
            List.forall_mem_cons.mpr ⟨noneHere, noneAbove⟩, negative, least, refused,
            List.mem_append_right _ listed, stored⟩
      · refine .inr ⟨[], line, lines, constant, number, opcode, payload, address, rfl, nofun,
          negative, least, ?_, List.mem_append_left _ List.mem_cons_self, stored⟩
        rw [emitFrom, refused]

end

/-- The bytes of an entry stand in the image from its address on. -/
theorem Assembled.getElem?_bytes {options : AssemblyOptions} {lines : List Line}
    {program : List Instruction} {image : Image} (assembled : Assembled options lines program image)
    {entry : ListingEntry} (listed : entry ∈ image.listing) {index : Nat}
    (inside : index < entry.bytes.length) :
    image.bytes[entry.address + index]? = entry.bytes[index]? := by
  obtain ⟨fill, bytes, _⟩ := assembled.bytes
  obtain ⟨upper, lower, split⟩ := List.append_of_mem listed
  have address : entry.address = (listingBytes upper).length := by
    rw [assembled.listing] at split
    exact assembled.resolved.lists.addresses upper entry lower split
  rw [bytes, ← assembled.resolved.listingBytes_eq 0, ← assembled.listing, split,
    listingBytes_append, listingBytes_cons, address, List.append_assoc, List.append_assoc,
    List.getElem?_append_right (Nat.le_add_right _ _), Nat.add_sub_cancel_left,
    List.getElem?_append_left inside]

/-- **Unsigned constants are a restriction.** A text that is assembled with unsigned constants is
assembled into the same image with signed ones. A text that is assembled with signed constants and
refused with unsigned ones is refused for the first line that holds a negative constant, and the
image with signed constants has this constant in two's complement, behind the opcode of that
line. -/
theorem unsigned_restricts_signed (options : AssemblyOptions) (source : String) :
    (∀ image, assemble (options.accepting .unsigned) source = .ok image →
      assemble (options.accepting .signed) source = .ok image) ∧
    ∀ image failure, assemble (options.accepting .signed) source = .ok image →
      assemble (options.accepting .unsigned) source = .error failure →
      ∃ above line below constant number,
        readSource source = .ok (above ++ line :: below) ∧
        NoneNegative above ∧ line.Negative constant number ∧ -128 ≤ number ∧ number ≤ -1 ∧
        failure = line.error constant.span (.immediateOutOfRange number .unsigned) ∧
        failure.line = above.length + 1 ∧
        ∃ entry ∈ image.listing, entry.line = failure.line ∧
          ∃ opcode payload, entry.bytes = [opcode, payload] ∧
            image.bytes[entry.address + 1]? = some payload ∧
            (payload.toNat : Int) = number + 256 := by
  refine ⟨?_, ?_⟩
  · intro image success
    obtain ⟨lines, program, read, assembled⟩ := assembled_of_assemble success
    have resolved : Resolves (options.accepting .signed) (DeclaredAt options.mode lines) lines
        program := by
      refine Resolves.mono ?_ ?_ (fun _ _ => id) assembled.resolved
      · rfl
      · change (-128 : Int) ≤ 0
        decide
    exact Assembled.assemble_eq_ok read { assembled with resolved := resolved }
  · intro image failure success refused
    obtain ⟨lines, table, entries, read, placed, emitted, made⟩ :=
      (assemble_eq_ok_iff_passes _ _ _).mp success
    have stopped : (emitFrom (options.accepting .unsigned) table 0 lines).1 = some failure :=
      emitFrom_of_assemble_eq_error read placed refused
    obtain ⟨_, same⟩ | ⟨above, line, below, constant, number, opcode, payload, start, rfl,
      noneAbove, negative, least, stopsHere, listed, stored⟩ := emitFrom_unsigned emitted
    · rw [same] at stopped
      cases stopped
    · have failed := Option.some.inj (stopped.symm.trans stopsHere)
      have here : failure.line = line.raw.number := by rw [failed]; rfl
      have number_eq := number_of_readSource read above.length line (by simp)
      have shown : (⟨line.raw.number, start, [opcode, payload], line.text⟩ : ListingEntry) ∈
          image.listing := by
        rw [← made]
        exact listed
      obtain ⟨_, program, _, assembled⟩ := assembled_of_assemble success
      exact ⟨above, line, below, constant, number, read, noneAbove, negative, least,
        Int.le_sub_one_of_lt negative.negative, failed, here.trans number_eq, _, shown, here.symm,
        opcode, payload, rfl, assembled.getElem?_bytes shown (by simp), stored⟩

theorem unsigned_restricts_signed_of_two_negative_constants :
    let signed := AssemblyOptions.accepting .signed {}
    let unsigned := AssemblyOptions.accepting .unsigned {}
    let positive : Image := ⟨[0x04, 0xFF], [⟨1, 0, [0x04, 0xFF], "LDI A 255"⟩], {}⟩
    let image : Image :=
      ⟨[0x04, 0xFF, 0x4C, 0xFD, 0x84, 0x80],
        [⟨1, 0, [0x04, 0xFF], "LDI A 255"⟩, ⟨2, 2, [0x4C, 0xFD], "CMI B -3"⟩,
          ⟨3, 4, [0x84, 0x80], "LDI C -128"⟩], {}⟩
    let failure : CompileError :=
      ⟨2, "cmi b -3", ⟨16, 2⟩, .immediateOutOfRange (-3) .unsigned⟩
    assemble unsigned "ldi a 255" = .ok positive ∧ assemble signed "ldi a 255" = .ok positive ∧
      assemble signed "ldi a 255\ncmi b -3\nldi c -128" = .ok image ∧
      assemble unsigned "ldi a 255\ncmi b -3\nldi c -128" = .error failure ∧
      ∃ number ≤ (-1 : Int),
        failure.fault = .immediateOutOfRange number .unsigned ∧
        ∃ entry ∈ image.listing, entry.line = 2 ∧ ∃ payload : UInt8,
          image.bytes[entry.address + 1]? = some payload ∧
            (payload.toNat : Int) = number + 256 := by
  intro signed unsigned positive image failure
  have accepted : assemble unsigned "ldi a 255" = .ok positive := by decide +kernel
  have success : assemble signed "ldi a 255\ncmi b -3\nldi c -128" = .ok image := by decide +kernel
  have refused : assemble unsigned "ldi a 255\ncmi b -3\nldi c -128" = .error failure := by
    decide +kernel
  obtain ⟨keeps, _⟩ := unsigned_restricts_signed {} "ldi a 255"
  obtain ⟨_, restricts⟩ := unsigned_restricts_signed {} "ldi a 255\ncmi b -3\nldi c -128"
  obtain ⟨_, _, _, _, number, _, _, _, _, negative, failed, _, entry, listed, line, _, payload, _,
    there, stored⟩ := restricts image failure success refused
  exact ⟨accepted, keeps positive accepted, success, refused, number, negative,
    by rw [failed]; rfl, entry, listed, line, payload, there, stored⟩

end Breadboard
