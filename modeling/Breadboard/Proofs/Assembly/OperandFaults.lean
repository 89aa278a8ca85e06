import Breadboard.Proofs.Assembly.LayoutFaults

/-!
# Faults of operands

An instruction line has too many or too few operands, or one of them is unfit for its place:
it is no register, no number, out of range, or names no label. Reading the line reports its
count first and otherwise the leftmost operand that is unfit (`faultOf_readInstruction_iff`),
and the second pass reports the first such line (`emitFrom_reports`).
-/

namespace Breadboard

/-- What stands at a place behind a mnemonic. -/
inductive OperandKind where
  | register
  | constant
  | cell
  | target
deriving DecidableEq, Repr

/-- The operands that stand behind a mnemonic, from left to right. -/
def Shape.operandKinds : Shape → List OperandKind
  | none => []
  | oneRegister => [.register]
  | twoRegisters => [.register, .register]
  | registerImmediate => [.register, .constant]
  | registerAddress => [.register, .cell]
  | jumpTarget => [.target]

/-- What is wrong with a word at its place. A relation tells which addresses the names of
labels have. -/
inductive Word.Unfit (options : AssemblyOptions) (labels : String → Nat → Prop) (word : Word) :
    OperandKind → Fault → Prop where
  | register (noRegister : ∀ register : Register, ¬word.Names register.text) :
      Unfit options labels word .register (.invalidRegister word.text)
  | constant (noNumber : ∀ number, ¬word.Writes number) :
      Unfit options labels word .constant (.malformedOperand word.text)
  | constantRange {number : Int} (written : word.Writes number)
      (outside : ¬(options.signedness.lowest ≤ number ∧ number ≤ 255)) :
      Unfit options labels word .constant (.immediateOutOfRange number options.signedness)
  | cell (noNumber : ∀ number, ¬word.Writes number) :
      Unfit options labels word .cell (.malformedOperand word.text)
  | cellRange {number : Int} (written : word.Writes number)
      (outside : ¬(0 ≤ number ∧ number < ramSize)) :
      Unfit options labels word .cell (.ramAddressOutOfRange number)
  | target (noNumber : ∀ number, ¬word.Writes number)
      (noName : ¬isIdentifier word.text.toList) :
      Unfit options labels word .target (.malformedOperand word.text)
  | undefined (name : isIdentifier word.text.toList)
      (undeclared : ∀ address, ¬labels (capitalized word.text) address) :
      Unfit options labels word .target (.undefinedLabel word.text)
  | targetRange {number : Int} (points : word.PointsTo labels number)
      (outside : ¬(0 ≤ number ∧ number < options.mode.limit)) :
      Unfit options labels word .target (.romAddressOutOfRange number options.mode.limit)

/-- What is wrong with the operands behind a mnemonic: their number, or else the leftmost one
that is unfit. -/
inductive OperandFault (options : AssemblyOptions) (labels : String → Nat → Prop)
    (mnemonic : Mnemonic) (operands : List Word) : Fault → Prop where
  | count (wrong : operands.length ≠ mnemonic.shape.operandCount) :
      OperandFault options labels mnemonic operands
        (.operandCount mnemonic mnemonic.shape.operandCount operands.length)
  | unfit {left right : List (Word × OperandKind)} {word : Word} {kind : OperandKind}
      {fault : Fault} (complete : operands.length = mnemonic.shape.operandCount)
      (place : operands.zip mnemonic.shape.operandKinds = left ++ (word, kind) :: right)
      (unfit : word.Unfit options labels kind fault)
      (leftmost : ∀ other ∈ left, ∀ earlier, ¬other.1.Unfit options labels other.2 earlier) :
      OperandFault options labels mnemonic operands fault

/-- The fault of a reading, without its place. -/
def faultOf {α : Type} (reading : Reading α) : Option Fault := (failure? reading).map (·.2)

theorem faultOf_bind_pure {α β : Type} (reading : Reading α) (build : α → β) :
    faultOf (reading >>= fun value => pure (build value)) = faultOf reading := by
  cases reading <;> rfl

/-- Of two readings, the first fault counts. -/
theorem faultOf_bind_bind_pure {α β γ : Type} (first : Reading α) (second : Reading β)
    (build : α → β → γ) :
    faultOf (first >>= fun left => second >>= fun right => pure (build left right)) =
      (faultOf first).or (faultOf second) := by
  cases first with
  | ok left => exact faultOf_bind_pure second (build left)
  | error failure => rfl

theorem faultOf_bind_eq_some_iff {α β : Type} (first : Reading α) (next : α → Reading β)
    (fault : Fault) :
    faultOf (first >>= next) = some fault ↔
      faultOf first = some fault ∨
        ∃ value, first = .ok value ∧ faultOf (next value) = some fault := by
  cases first with
  | ok value =>
    refine ⟨fun found => .inr ⟨value, rfl, found⟩, ?_⟩
    rintro (nothing | ⟨_, ⟨⟩, found⟩)
    · cases nothing
    · exact found
  | error failure =>
    refine ⟨.inl, ?_⟩
    rintro (found | ⟨_, ⟨⟩, _⟩)
    exact found

theorem faultOf_error_iff {α : Type} (span : Span) (own fault : Fault) :
    faultOf (.error (span, own) : Reading α) = some fault ↔ fault = own := by
  rw [faultOf, failure?, Option.map_some, Option.some_inj, eq_comm]

/-- Something out of bounds is a fault. -/
theorem faultOf_ite_iff {α : Type} {inside : Prop} [Decidable inside] (value : α)
    (span : Span) (own fault : Fault) :
    faultOf (if inside then .ok value else .error (span, own)) = some fault ↔
      ¬inside ∧ fault = own := by
  by_cases here : inside
  · rw [if_pos here]
    exact ⟨nofun, fun outside => absurd here outside.1⟩
  · rw [if_neg here, and_iff_right here]
    exact faultOf_error_iff span own fault

namespace Word

/-- The fault that is found in a word at its place. -/
def fault? (options : AssemblyOptions) (symbols : Symbols) (word : Word) :
    OperandKind → Option Fault
  | .register => faultOf word.readRegister
  | .constant => faultOf (word.readImmediate options.signedness)
  | .cell => faultOf word.readRamAddress
  | .target => faultOf (word.readTarget options.mode symbols)

variable (word : Word)

theorem faultOf_readRegister_iff (fault : Fault) :
    faultOf word.readRegister = some fault ↔
      (∀ register : Register, ¬word.Names register.text) ∧ fault = .invalidRegister word.text := by
  have unknown : Register.ofText? word.text = none ↔
      ∀ register : Register, ¬word.Names register.text := by
    rw [Option.eq_none_iff_forall_ne_some]
    exact forall_congr' fun register => not_congr (Register.ofText?_eq_some_iff _ _)
  rw [← unknown]
  unfold readRegister
  cases Register.ofText? word.text with
  | some register => exact ⟨nofun, nofun⟩
  | none =>
    rw [and_iff_right rfl]
    exact faultOf_error_iff _ _ fault

theorem read?_eq_none_iff :
    Literal.read? word.text.toList = none ↔ ∀ number, ¬word.Writes number :=
  Option.eq_none_iff_forall_ne_some

theorem faultOf_readNumber_iff (fault : Fault) :
    faultOf word.readNumber = some fault ↔
      (∀ number, ¬word.Writes number) ∧ fault = .malformedOperand word.text := by
  rw [← read?_eq_none_iff]
  unfold readNumber
  cases Literal.read? word.text.toList with
  | some number => exact ⟨nofun, nofun⟩
  | none =>
    rw [and_iff_right rfl]
    exact faultOf_error_iff _ _ fault

/-- A constant or a RAM address is refused if it is no number or out of range. -/
theorem faultOf_readImmediate_iff (signedness : Signedness) (fault : Fault) :
    faultOf (word.readImmediate signedness) = some fault ↔
      (∀ number, ¬word.Writes number) ∧ fault = .malformedOperand word.text ∨
        ∃ number, word.Writes number ∧ ¬(signedness.lowest ≤ number ∧ number ≤ 255) ∧
          fault = .immediateOutOfRange number signedness := by
  have stored (number : Int) : signedness.byte? number = none ↔
      ¬(signedness.lowest ≤ number ∧ number ≤ 255) := by
    rw [Signedness.byte?, ite_eq_right_iff]
    exact imp_congr_right fun _ => iff_of_false (by rintro ⟨⟩) id
  unfold readImmediate
  simp only [faultOf_bind_eq_some_iff, faultOf_readNumber_iff, readNumber_eq_ok_iff, ← stored]
  refine or_congr_right (exists_congr fun number => and_congr_right fun _ => ?_)
  cases signedness.byte? number with
  | some byte => exact ⟨by rintro ⟨⟩, by rintro ⟨⟨⟩, _⟩⟩
  | none =>
    rw [and_iff_right rfl]
    exact faultOf_error_iff _ _ fault

theorem faultOf_readRamAddress_iff (fault : Fault) :
    faultOf word.readRamAddress = some fault ↔
      (∀ number, ¬word.Writes number) ∧ fault = .malformedOperand word.text ∨
        ∃ number, word.Writes number ∧ ¬(0 ≤ number ∧ number < ramSize) ∧
          fault = .ramAddressOutOfRange number := by
  unfold readRamAddress
  simp only [faultOf_bind_eq_some_iff, faultOf_readNumber_iff, readNumber_eq_ok_iff,
    faultOf_ite_iff]

variable {options : AssemblyOptions} {symbols : Symbols} {labels : String → Nat → Prop}
  (agree : ∀ name address, symbols.get? name = some address ↔ labels (capitalized name) address)

include agree

/-- A jump operand that is no number has to be the name of a label. -/
theorem faultOf_readAddress_iff (fault : Fault) :
    faultOf (word.readAddress symbols) = some fault ↔
      (∀ number, ¬word.Writes number) ∧ ¬isIdentifier word.text.toList ∧
          fault = .malformedOperand word.text ∨
        isIdentifier word.text.toList ∧ (∀ address, ¬labels (capitalized word.text) address) ∧
          fault = .undefinedLabel word.text := by
  have undeclared : symbols.get? word.text = none ↔
      ∀ address, ¬labels (capitalized word.text) address := by
    rw [Option.eq_none_iff_forall_ne_some]
    exact forall_congr' fun address => not_congr (agree _ _)
  rw [← undeclared, ← read?_eq_none_iff]
  unfold readAddress
  cases name : isIdentifier word.text.toList with
  | true =>
    rw [Literal.read?_eq_none_of_isIdentifier name]
    simp only [if_true, not_true, false_and, and_false, false_or, true_and]
    cases symbols.get? word.text with
    | some address => exact ⟨nofun, nofun⟩
    | none =>
      rw [and_iff_right rfl]
      exact faultOf_error_iff _ _ fault
  | false =>
    simp only [Bool.false_eq_true, if_false, not_false_eq_true, true_and, false_and, or_false]
    cases Literal.read? word.text.toList with
    | some number => exact ⟨nofun, nofun⟩
    | none =>
      rw [and_iff_right rfl]
      exact faultOf_error_iff _ _ fault

theorem faultOf_readTarget_iff (mode : AddressMode) (fault : Fault) :
    faultOf (word.readTarget mode symbols) = some fault ↔
      ((∀ number, ¬word.Writes number) ∧ ¬isIdentifier word.text.toList ∧
          fault = .malformedOperand word.text ∨
        isIdentifier word.text.toList ∧ (∀ address, ¬labels (capitalized word.text) address) ∧
          fault = .undefinedLabel word.text) ∨
        ∃ number, word.PointsTo labels number ∧ ¬(0 ≤ number ∧ number < mode.limit) ∧
          fault = .romAddressOutOfRange number mode.limit := by
  unfold readTarget
  simp only [faultOf_bind_eq_some_iff, faultOf_readAddress_iff word agree,
    readAddress_eq_ok_iff word agree, faultOf_ite_iff]

/-- **A word is refused exactly for its fault.** -/
theorem fault?_eq_some_iff (kind : OperandKind) (fault : Fault) :
    word.fault? options symbols kind = some fault ↔ word.Unfit options labels kind fault := by
  unfold fault?
  cases kind with
  | register =>
    rw [faultOf_readRegister_iff]
    constructor
    · rintro ⟨noRegister, rfl⟩
      exact .register noRegister
    · rintro ⟨noRegister⟩
      exact ⟨noRegister, rfl⟩
  | constant =>
    rw [faultOf_readImmediate_iff]
    constructor
    · rintro (⟨noNumber, rfl⟩ | ⟨number, written, outside, rfl⟩)
      · exact .constant noNumber
      · exact .constantRange written outside
    · intro unfit
      cases unfit with
      | constant noNumber => exact .inl ⟨noNumber, rfl⟩
      | constantRange written outside => exact .inr ⟨_, written, outside, rfl⟩
  | cell =>
    rw [faultOf_readRamAddress_iff]
    constructor
    · rintro (⟨noNumber, rfl⟩ | ⟨number, written, outside, rfl⟩)
      · exact .cell noNumber
      · exact .cellRange written outside
    · intro unfit
      cases unfit with
      | cell noNumber => exact .inl ⟨noNumber, rfl⟩
      | cellRange written outside => exact .inr ⟨_, written, outside, rfl⟩
  | target =>
    rw [faultOf_readTarget_iff word agree]
    constructor
    · rintro ((⟨noNumber, noName, rfl⟩ | ⟨name, undeclared, rfl⟩) |
        ⟨number, points, outside, rfl⟩)
      · exact .target noNumber noName
      · exact .undefined name undeclared
      · exact .targetRange points outside
    · intro unfit
      cases unfit with
      | target noNumber noName => exact .inl (.inl ⟨noNumber, noName, rfl⟩)
      | undefined name undeclared => exact .inl (.inr ⟨name, undeclared, rfl⟩)
      | targetRange points outside => exact .inr ⟨_, points, outside, rfl⟩

end Word

theorem findSome?_pair {α β : Type} (f : α → Option β) (first second : α) :
    [first, second].findSome? f = (f first).or (f second) := by
  rw [List.findSome?_cons, List.findSome?_singleton]
  cases f first <;> rfl

section

variable {options : AssemblyOptions} {symbols : Symbols} {labels : String → Nat → Prop}
  {head : Word} {mnemonic : Mnemonic} {operands : List Word}

/-- With as many operands as there should be, the leftmost unfit one is reported. -/
theorem faultOf_readInstruction_of_count
    (complete : operands.length = mnemonic.shape.operandCount) :
    faultOf (readInstruction options symbols head mnemonic operands) =
      (operands.zip mnemonic.shape.operandKinds).findSome? fun place =>
        place.1.fault? options symbols place.2 := by
  have two := findSome?_pair fun place : Word × OperandKind =>
    place.1.fault? options symbols place.2
  cases mnemonic with
  | bare op =>
    rw [List.length_eq_zero_iff.mp complete]
    rfl
  | unary op =>
    obtain ⟨register, rfl⟩ := List.length_eq_one_iff.mp complete
    rw [readInstruction, faultOf_bind_pure]
    exact List.findSome?_singleton.symm
  | pair op =>
    obtain ⟨destination, source, rfl⟩ := List.length_eq_two.mp complete
    rw [readInstruction, faultOf_bind_bind_pure]
    exact (two (destination, .register) (source, .register)).symm
  | immediate op =>
    obtain ⟨register, constant, rfl⟩ := List.length_eq_two.mp complete
    rw [readInstruction, faultOf_bind_bind_pure]
    exact (two (register, .register) (constant, .constant)).symm
  | memory op =>
    obtain ⟨register, cell, rfl⟩ := List.length_eq_two.mp complete
    rw [readInstruction, faultOf_bind_bind_pure]
    exact (two (register, .register) (cell, .cell)).symm
  | jump condition =>
    obtain ⟨target, rfl⟩ := List.length_eq_one_iff.mp complete
    rw [readInstruction, faultOf_bind_pure]
    exact List.findSome?_singleton.symm

/-- Any other number of operands is reported itself. -/
theorem readInstruction_of_not_count
    (wrong : operands.length ≠ mnemonic.shape.operandCount) :
    readInstruction options symbols head mnemonic operands =
      .error (head.spanThrough operands,
        .operandCount mnemonic mnemonic.shape.operandCount operands.length) := by
  unfold readInstruction
  split
  case h_7 => rfl
  all_goals exact absurd rfl wrong

theorem faultOf_readInstruction_of_not_count
    (wrong : operands.length ≠ mnemonic.shape.operandCount) :
    faultOf (readInstruction options symbols head mnemonic operands) =
      some (.operandCount mnemonic mnemonic.shape.operandCount operands.length) := by
  rw [readInstruction_of_not_count wrong]
  rfl

/-- **An instruction line is refused exactly for its fault.** -/
theorem faultOf_readInstruction_iff
    (agree : ∀ name address,
      symbols.get? name = some address ↔ labels (capitalized name) address) (fault : Fault) :
    faultOf (readInstruction options symbols head mnemonic operands) = some fault ↔
      OperandFault options labels mnemonic operands fault := by
  by_cases complete : operands.length = mnemonic.shape.operandCount
  · rw [faultOf_readInstruction_of_count complete, List.findSome?_eq_some_iff]
    constructor
    · rintro ⟨left, ⟨word, kind⟩, right, place, found, noneLeft⟩
      refine .unfit complete place ((word.fault?_eq_some_iff agree kind fault).mp found) ?_
      intro other member earlier unfit
      rw [← other.1.fault?_eq_some_iff agree, noneLeft other member] at unfit
      cases unfit
    · intro refused
      cases refused with
      | count wrong => exact absurd complete wrong
      | @unfit left right word kind _ _ place unfit leftmost =>
        refine ⟨left, (word, kind), right, place,
          (word.fault?_eq_some_iff agree kind fault).mpr unfit, ?_⟩
        intro other member
        rw [Option.eq_none_iff_forall_ne_some]
        intro earlier found
        exact leftmost other member earlier ((other.1.fault?_eq_some_iff agree _ _).mp found)
  · rw [faultOf_readInstruction_of_not_count complete, Option.some_inj]
    constructor
    · rintro rfl
      exact .count complete
    · intro refused
      cases refused with
      | count => rfl
      | unfit enough => exact absurd enough complete

end

/-- What is wrong with a line that holds an instruction. -/
def InstructionFault (options : AssemblyOptions) (labels : String → Nat → Prop) (line : Line)
    (fault : Fault) : Prop :=
  ∃ head operands mnemonic, line.content = .instruction head operands ∧
    head.Names (Mnemonic.text mnemonic) ∧ OperandFault options labels mnemonic operands fault

section

variable {options : AssemblyOptions} {symbols : Symbols} {labels : String → Nat → Prop}
  (agree : ∀ name address, symbols.get? name = some address ↔ labels (capitalized name) address)

include agree

/-- A line whose mnemonic is known and that fits is refused exactly for its fault. -/
theorem emit_reports {address : Nat} {line : Line} (known : line.IsNamed)
    (fits : address + line.size options.mode ≤ romSize) :
    match line.emit options symbols address with
    | .ok _ => ∀ fault, ¬InstructionFault options labels line fault
    | .error failure => failure.line = line.raw.number ∧
      ∀ fault, InstructionFault options labels line fault ↔ fault = failure.fault := by
  obtain ⟨raw, content⟩ := line
  cases content with
  | blank | label =>
    rintro fault ⟨_, _, _, ⟨⟩, _⟩
  | instruction head operands =>
    obtain ⟨mnemonic, found⟩ := known head operands rfl
    have named := (Mnemonic.ofText?_eq_some_iff _ _).mp found
    have only (fault : Fault) :
        InstructionFault options labels ⟨raw, .instruction head operands⟩ fault ↔
          faultOf (readInstruction options symbols head mnemonic operands) = some fault := by
      rw [faultOf_readInstruction_iff agree]
      constructor
      · rintro ⟨_, _, other, ⟨⟩, otherNamed, refused⟩
        rw [mnemonic.text_injective other (named.symm.trans otherNamed)]
        exact refused
      · intro refused
        exact ⟨head, operands, mnemonic, rfl, named, refused⟩
    simp only [only, Line.emit, (head.readMnemonic_eq_ok_iff mnemonic).mpr named]
    have reading : (Except.ok mnemonic >>= fun mnemonic =>
        readInstruction options symbols head mnemonic operands) =
          readInstruction options symbols head mnemonic operands := rfl
    rw [reading]
    cases read : readInstruction options symbols head mnemonic operands with
    | error failure => exact ⟨rfl, fun fault => faultOf_error_iff failure.1 failure.2 fault⟩
    | ok instruction =>
      have meaning := means_of_readInstruction agree named read
      have written : (Line.mk raw (.instruction head operands)).instruction? =
          some (head, operands) := rfl
      -- The first pass has checked the size, so that the second never refuses a line for it.
      have inRom : ¬romSize < address + (instruction.encode options.mode).length := by
        rw [instruction.length_encode, ← meaning.size_eq written]
        exact Nat.not_lt.mpr fits
      simp only [if_neg inRom]
      rintro _ ⟨⟩

end

/-- The second pass stands behind the lines that it got through. -/
theorem length_listingBytes_of_emitFrom {options : AssemblyOptions} {symbols : Symbols}
    {labels : String → Nat → Prop}
    (agree : ∀ name address,
      symbols.get? name = some address ↔ labels (capitalized name) address)
    {front : List Line} {entries : List ListingEntry}
    (emitted : emitFrom options symbols 0 front = (none, entries)) :
    (listingBytes entries).length = totalSize options.mode front := by
  obtain ⟨program, resolves, _, rfl⟩ :=
    (emitFrom_eq_none_iff agree 0 (Nat.zero_le _) front entries).mp emitted
  rw [resolves.listingBytes_eq, length_machineCode, resolves.codeSize_eq]

/-- **The second pass reports the first fault of an instruction line.** -/
theorem emitFrom_reports {options : AssemblyOptions} {lines : List Line} {table : Symbols}
    (placed : placeFrom options.mode 0 {} lines = (none, table))
    (numbers : ∀ index line, lines[index]? = some line → line.raw.number = index + 1) :
    Reports
      (fun index fault => ∃ line, lines[index]? = some line ∧
        InstructionFault options (DeclaredAt options.mode lines) line fault)
      (emitFrom options table 0 lines).1 := by
  obtain ⟨known, fits, entries, distinct⟩ := (placeFrom_zero_eq_none_iff _ _ _).mp placed
  have agree := get?_eq_some_iff_declaredAt entries distinct
  apply reports_of_steps (fun front => (emitFrom options table 0 front).1) rfl
  · intro front back failure stopped
    exact emitFrom_append_of_stopped stopped back
  · rintro index fault ⟨line, here, _⟩
    exact (List.getElem?_eq_some_iff.mp here).1
  · intro front line back split through
    have present : lines[front.length]? = some line := by
      rw [split]
      exact getElem?_length_append
    have below : totalSize options.mode front + line.size options.mode ≤ romSize := by
      rw [split, totalSize_append, totalSize_cons] at fits
      omega
    have here := emit_reports agree (known line (List.mem_of_getElem? present)) below
    simp only [present, Option.some.injEq, exists_eq_left']
    cases emitted : emitFrom options table 0 front with
    | mk failure? shown =>
      rw [emitted] at through
      cases through
      rw [emitFrom_append emitted, length_listingBytes_of_emitFrom agree emitted, Nat.zero_add,
        emitFrom]
      cases next : line.emit options table (totalSize options.mode front) with
      | ok entry? =>
        rw [next] at here
        cases entry? <;> exact here
      | error failure =>
        rw [next] at here
        refine ⟨?_, here.2⟩
        rw [here.1, numbers front.length line present]

end Breadboard
