import Breadboard.Proofs.Assembly.OperandFaults
import Breadboard.Proofs.Source.Twins

/-!
# Texts that are assembled in step

Texts with the same marks are assembled in step: every word is read alike (`readInstruction_agree`),
every line is placed and emitted alike, and so each pass gets equally far and leaves the
same labels and the same listing. The texts and the places of the lines show up in a failure
only, apart from its line and its fault (`assemble_depends_on_marks`).
-/

namespace Breadboard

/-- Two readings with the same result or the same fault. -/
abbrev ReadAlike {α : Type} (reading other : Reading α) : Prop :=
  Agree SameFault Eq reading other

theorem ReadAlike.bind {α β : Type} {reading other : Reading α} (alike : ReadAlike reading other)
    {next following : α → Reading β} (rest : ∀ value, ReadAlike (next value) (following value)) :
    ReadAlike (reading >>= next) (other >>= following) := by
  refine Agree.bind alike fun value otherValue same => ?_
  rw [← same]
  exact rest value

/-- Two values that are read one after the other. -/
theorem ReadAlike.pair {α β γ : Type} {first otherFirst : Reading α}
    {second otherSecond : Reading β}
    (alike : ReadAlike first otherFirst) (alikeSecond : ReadAlike second otherSecond)
    (build : α → β → γ) :
    ReadAlike (first >>= fun left => second >>= fun right => pure (build left right))
      (otherFirst >>= fun left => otherSecond >>= fun right => pure (build left right)) :=
  alike.bind fun _ => alikeSecond.bind fun _ => .ok rfl

/-- A check that has the same outcome in both readings. -/
theorem readAlike_ite {α : Type} (inside : Prop) [Decidable inside] (value : α)
    (span otherSpan : Span) (fault : Fault) :
    ReadAlike (if inside then .ok value else .error (span, fault))
      (if inside then .ok value else .error (otherSpan, fault)) := by
  by_cases here : inside
  · rw [if_pos here, if_pos here]
    exact .ok rfl
  · rw [if_neg here, if_neg here]
    exact .error rfl

namespace Word

section

variable {word other : Word} (text : word.text = other.text)

include text

theorem readMnemonic_agree : ReadAlike word.readMnemonic other.readMnemonic := by
  unfold readMnemonic
  rw [text]
  cases Mnemonic.ofText? other.text with
  | some mnemonic => exact .ok rfl
  | none => exact .error rfl

theorem readRegister_agree : ReadAlike word.readRegister other.readRegister := by
  unfold readRegister
  rw [text]
  cases Register.ofText? other.text with
  | some register => exact .ok rfl
  | none => exact .error rfl

theorem readNumber_agree : ReadAlike word.readNumber other.readNumber := by
  unfold readNumber
  rw [text]
  cases Literal.read? other.text.toList with
  | some number => exact .ok rfl
  | none => exact .error rfl

theorem readImmediate_agree (signedness : Signedness) :
    ReadAlike (word.readImmediate signedness) (other.readImmediate signedness) := by
  refine ReadAlike.bind (readNumber_agree text) fun number => ?_
  cases signedness.byte? number with
  | some byte => exact .ok rfl
  | none => exact .error rfl

theorem readRamAddress_agree : ReadAlike word.readRamAddress other.readRamAddress :=
  ReadAlike.bind (readNumber_agree text) fun _ => readAlike_ite _ _ _ _ _

theorem readAddress_agree (symbols : Symbols) :
    ReadAlike (word.readAddress symbols) (other.readAddress symbols) := by
  unfold readAddress
  rw [text]
  cases Literal.read? other.text.toList with
  | some number => exact .ok rfl
  | none =>
    cases isIdentifier other.text.toList with
    | false => exact .error rfl
    | true =>
      simp only [if_true]
      cases symbols.get? other.text with
      | some address => exact .ok rfl
      | none => exact .error rfl

theorem readTarget_agree (mode : AddressMode) (symbols : Symbols) :
    ReadAlike (word.readTarget mode symbols) (other.readTarget mode symbols) :=
  ReadAlike.bind (readAddress_agree text symbols) fun _ => readAlike_ite _ _ _ _ _

end

end Word

section

variable {operands others : List Word} (texts : operands.map (·.text) = others.map (·.text))

include texts

theorem exists_one_of_texts (complete : operands.length = 1) :
    ∃ word other, operands = [word] ∧ others = [other] ∧ word.text = other.text := by
  obtain ⟨word, rfl⟩ := List.length_eq_one_iff.mp complete
  obtain ⟨other, rfl, same⟩ := List.map_eq_singleton_iff.mp texts.symm
  exact ⟨word, other, rfl, rfl, same.symm⟩

theorem exists_two_of_texts (complete : operands.length = 2) :
    ∃ first second otherFirst otherSecond, operands = [first, second] ∧
      others = [otherFirst, otherSecond] ∧ first.text = otherFirst.text ∧
      second.text = otherSecond.text := by
  obtain ⟨first, second, rfl⟩ := List.length_eq_two.mp complete
  obtain ⟨otherFirst, _, rfl, one, rest⟩ := List.map_eq_cons_iff.mp texts.symm
  obtain ⟨otherSecond, rfl, two⟩ := List.map_eq_singleton_iff.mp rest
  exact ⟨first, second, otherFirst, otherSecond, rfl, rfl, one.symm, two.symm⟩

/-- **Words with the same texts are read as the same instruction**, or refused for the same
fault. -/
theorem readInstruction_agree (options : AssemblyOptions) (symbols : Symbols)
    {head otherHead : Word} (mnemonic : Mnemonic) :
    ReadAlike (readInstruction options symbols head mnemonic operands)
      (readInstruction options symbols otherHead mnemonic others) := by
  by_cases complete : operands.length = mnemonic.shape.operandCount
  · cases mnemonic with
    | bare op =>
      cases List.length_eq_zero_iff.mp complete
      cases List.map_eq_nil_iff.mp texts.symm
      exact .ok rfl
    | unary op =>
      obtain ⟨register, other, rfl, rfl, same⟩ := exists_one_of_texts texts complete
      exact (Word.readRegister_agree same).bind fun _ => .ok rfl
    | pair op =>
      obtain ⟨_, _, _, _, rfl, rfl, one, two⟩ := exists_two_of_texts texts complete
      exact (Word.readRegister_agree one).pair (Word.readRegister_agree two)
        (Instruction.pair op)
    | immediate op =>
      obtain ⟨_, _, _, _, rfl, rfl, one, two⟩ := exists_two_of_texts texts complete
      exact (Word.readRegister_agree one).pair (Word.readImmediate_agree two options.signedness)
        (Instruction.immediate op)
    | memory op =>
      obtain ⟨_, _, _, _, rfl, rfl, one, two⟩ := exists_two_of_texts texts complete
      exact (Word.readRegister_agree one).pair (Word.readRamAddress_agree two)
        (Instruction.memory op)
    | jump condition =>
      obtain ⟨target, other, rfl, rfl, same⟩ := exists_one_of_texts texts complete
      exact (Word.readTarget_agree same options.mode symbols).bind fun _ => .ok rfl
  · have sameLength : operands.length = others.length := by
      simpa only [List.length_map] using congrArg List.length texts
    rw [readInstruction_of_not_count complete,
      readInstruction_of_not_count (sameLength ▸ complete), sameLength]
    exact .error rfl

end

theorem readLine_agree (options : AssemblyOptions) (symbols : Symbols) {head otherHead : Word}
    {operands others : List Word}
    (texts : (head :: operands).map (·.text) = (otherHead :: others).map (·.text)) :
    ReadAlike (readLine options symbols head operands)
      (readLine options symbols otherHead others) := by
  obtain ⟨named, rest⟩ := List.cons.inj texts
  refine (Word.readMnemonic_agree named).bind fun mnemonic => ?_
  exact readInstruction_agree rest options symbols mnemonic

namespace Line.Twin

variable {line other : Line} (twin : line.Twin other)

include twin

/-- Twins are placed in step. -/
theorem place_agree (mode : AddressMode) (address : Nat) (symbols : Symbols) :
    Agree CompileError.Alike Eq (line.place mode address symbols)
      (other.place mode address symbols) := by
  obtain ⟨raw, content⟩ := line
  obtain ⟨otherRaw, otherContent⟩ := other
  have number : raw.number = otherRaw.number := twin.number
  cases twin.content with
  | blank => exact .ok rfl
  | @label name otherName text =>
    simp only [place, text]
    rcases symbols.insert otherName.text address with ⟨_ | earlier, table⟩
    · exact .ok rfl
    · exact .error ⟨number, rfl⟩
  | @instruction head otherHead _ _ texts =>
    have named := Word.readMnemonic_agree (List.cons.inj texts).1
    simp only [place]
    generalize head.readMnemonic = reading at named ⊢
    generalize otherHead.readMnemonic = otherReading at named ⊢
    cases named with
    | error same => exact .error ⟨number, same⟩
    | @ok mnemonic _ same =>
      cases same
      by_cases large : romSize < address + mnemonic.size mode
      · simp only [if_pos large]
        exact .error ⟨number, rfl⟩
      · simp only [if_neg large]
        exact .ok rfl

/-- Twins are emitted in step. -/
theorem emit_agree (options : AssemblyOptions) (symbols : Symbols) (address : Nat) :
    Agree CompileError.Alike Eq (line.emit options symbols address)
      (other.emit options symbols address) := by
  have shown : line.text = other.text := twin.content.text_eq
  obtain ⟨raw, content⟩ := line
  obtain ⟨otherRaw, otherContent⟩ := other
  have number : raw.number = otherRaw.number := twin.number
  cases twin.content with
  | blank => exact .ok rfl
  | label =>
    simp only [emit, number, shown]
    exact .ok rfl
  | @instruction head otherHead operands others texts =>
    have read := readLine_agree options symbols texts
    have asLine (word : Word) (words : List Word) : (word.readMnemonic >>= fun mnemonic =>
        readInstruction options symbols word mnemonic words) =
          readLine options symbols word words := rfl
    simp only [emit, number, shown, asLine]
    generalize readLine options symbols head operands = reading at read ⊢
    generalize readLine options symbols otherHead others = otherReading at read ⊢
    cases read with
    | error same => exact .error ⟨number, same⟩
    | @ok instruction _ same =>
      cases same
      by_cases large : romSize < address + (instruction.encode options.mode).length
      · simp only [if_pos large]
        exact .error ⟨number, rfl⟩
      · simp only [if_neg large]
        exact .ok rfl

end Line.Twin

section

variable {lines others : List Line} (twins : List.Forall₂ Line.Twin lines others)

include twins

/-- The first pass gets equally far in both texts and finds the same labels. -/
theorem placeFrom_agree (mode : AddressMode) (address : Nat) (symbols : Symbols) :
    Option.Rel CompileError.Alike (placeFrom mode address symbols lines).1
        (placeFrom mode address symbols others).1 ∧
      (placeFrom mode address symbols lines).2 = (placeFrom mode address symbols others).2 := by
  induction twins generalizing address symbols with
  | nil => exact ⟨.none, rfl⟩
  | @cons line other _ _ twin _ ih =>
    have first := twin.place_agree mode address symbols
    simp only [placeFrom]
    generalize line.place mode address symbols = placed at first ⊢
    generalize other.place mode address symbols = otherPlaced at first ⊢
    cases first with
    | error alike => exact ⟨.some alike, rfl⟩
    | ok same =>
      cases same
      exact ih _ _

/-- The second pass gets equally far in both texts and leaves the same listing. -/
theorem emitFrom_agree (options : AssemblyOptions) (symbols : Symbols) (address : Nat) :
    Option.Rel CompileError.Alike (emitFrom options symbols address lines).1
        (emitFrom options symbols address others).1 ∧
      (emitFrom options symbols address lines).2 = (emitFrom options symbols address others).2 := by
  induction twins generalizing address with
  | nil => exact ⟨.none, rfl⟩
  | @cons line other _ _ twin _ ih =>
    have first := twin.emit_agree options symbols address
    simp only [emitFrom]
    generalize line.emit options symbols address = emitted at first ⊢
    generalize other.emit options symbols address = otherEmitted at first ⊢
    cases first with
    | error alike => exact ⟨.some alike, rfl⟩
    | @ok entry? _ same =>
      cases same
      cases entry? with
      | none => exact ih address
      | some entry =>
        obtain ⟨failures, listings⟩ := ih (address + entry.bytes.length)
        exact ⟨failures, congrArg (List.cons entry) listings⟩

end

/-- **Texts with the same marks are assembled in step.** -/
theorem assemble_agree (options : AssemblyOptions) {source other : String}
    (same : marksOf source = marksOf other) :
    Agree CompileError.Alike Eq (assemble options source) (assemble options other) := by
  have read := readSource_agree same
  unfold assemble Draft.ofSource
  generalize readSource source = lines? at read ⊢
  generalize readSource other = others? at read ⊢
  cases read with
  | error alike => exact .error alike
  | @ok lines others twins =>
    obtain ⟨placeFailures, tables⟩ := placeFrom_agree twins options.mode 0 {}
    simp only [Draft.placeLabels, ← tables]
    generalize (placeFrom options.mode 0 {} lines).1 = failure? at placeFailures ⊢
    generalize (placeFrom options.mode 0 {} others).1 = otherFailure? at placeFailures ⊢
    cases placeFailures with
    | some alike => exact .error alike
    | none =>
      obtain ⟨emitFailures, listings⟩ :=
        emitFrom_agree twins options (placeFrom options.mode 0 {} lines).2 0
      simp only [Draft.emitListing, ← listings]
      generalize (emitFrom options _ 0 lines).1 = failure? at emitFailures ⊢
      generalize (emitFrom options _ 0 others).1 = otherFailure? at emitFailures ⊢
      cases emitFailures with
      | some alike => exact .error alike
      | none => exact .ok rfl

/-- **Layout does not matter.** Two texts have the same marks, line by line, exactly if their
lines are spellings of the same marks: they may differ in letter case, in separators, in
comments and in carriage returns. Such texts are assembled into the same image, or the
assembly of both fails in the same line with the same fault. -/
theorem assemble_depends_on_marks (options : AssemblyOptions) (source other : String) :
    (marksOf source = marksOf other ↔
      ∃ marks, List.Forall₂ Spells (splitLines source.toList) marks ∧
        List.Forall₂ Spells (splitLines other.toList) marks) ∧
    (marksOf source = marksOf other →
      (∃ image, assemble options source = .ok image ∧ assemble options other = .ok image) ∨
      ∃ failure otherFailure, assemble options source = .error failure ∧
        assemble options other = .error otherFailure ∧ failure.line = otherFailure.line ∧
        failure.fault = otherFailure.fault) := by
  refine ⟨?_, fun same => ?_⟩
  · simp only [← marksOf_eq_iff, exists_eq_left']
    exact eq_comm
  · have agree := assemble_agree options same
    generalize assemble options source = outcome at agree ⊢
    generalize assemble options other = otherOutcome at agree ⊢
    cases agree with
    | @ok image _ equal =>
      cases equal
      exact .inl ⟨image, rfl, rfl⟩
    | @error failure otherFailure alike =>
      exact .inr ⟨failure, otherFailure, rfl, rfl, alike.line, alike.fault⟩

theorem assemble_depends_on_marks_of_respelled_loop :
    let source := "on: ;\r\n\tjnz,On"
    let other := "ON :\nJnz  on @x"
    let faulty := "inc,e\r"
    let otherFaulty := " INC E;"
    let image : Image :=
      ⟨[0x25, 0x00, 0x00], [⟨1, 0, [], "ON:"⟩, ⟨2, 0, [0x25, 0x00, 0x00], "JNZ ON"⟩], ⟨[("ON", 0)]⟩⟩
    (marksOf source = marksOf other ∧ assemble {} source = .ok image ∧
      assemble {} other = .ok image) ∧
    marksOf faulty = marksOf otherFaulty ∧
      assemble {} faulty = .error ⟨1, "inc,e", ⟨4, 1⟩, .invalidRegister "E"⟩ ∧
      ∃ failure, assemble {} otherFaulty = .error failure ∧ failure.line = 1 ∧
        failure.fault = .invalidRegister "E" := by
  intro source other faulty otherFaulty image
  have same : marksOf source = marksOf other := by decide +kernel
  have success : assemble {} source = .ok image := by decide +kernel
  have sameFaulty : marksOf faulty = marksOf otherFaulty := by decide +kernel
  have failed : assemble {} faulty = .error ⟨1, "inc,e", ⟨4, 1⟩, .invalidRegister "E"⟩ := by
    decide +kernel
  refine ⟨⟨same, success, ?_⟩, sameFaulty, failed, ?_⟩
  · rcases (assemble_depends_on_marks {} source other).2 same with
      ⟨assembled, here, there⟩ | ⟨failure, _, here, _⟩
    · cases success.symm.trans here
      exact there
    · cases success.symm.trans here
  · rcases (assemble_depends_on_marks {} faulty otherFaulty).2 sameFaulty with
      ⟨assembled, here, _⟩ | ⟨failure, otherFailure, here, there, line, fault⟩
    · cases failed.symm.trans here
    · cases failed.symm.trans here
      exact ⟨otherFailure, there, line.symm, fault.symm⟩

end Breadboard
