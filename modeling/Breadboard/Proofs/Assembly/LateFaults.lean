import Breadboard.Proofs.Assembly.Interruption
import Breadboard.Proofs.Assembly.OperandFaults

/-!
# Faults that the second pass cannot find

Both passes check the size of the program, and both read mnemonics. The first one goes by the sizes
of the opcode table, the second one by the bytes that it sends out. As an encoding is as long as
the table says, their addresses agree at every line, and what the first pass has let through the
second one does not refuse for its size or its mnemonic. Nor can operands that are read turn out
unfit for their mnemonic (`ofOperands?_map_readOperands`). A second pass behind a first one
without a fault therefore fails for operands only, and until then it lists every label at the
address that the table has for it (`no_late_faults`).
-/

namespace Breadboard

/-- Reads the operands alone, by the shape that a mnemonic takes. -/
def readOperands (options : AssemblyOptions) (symbols : Symbols) (head : Word)
    (mnemonic : Mnemonic) (operands : List Word) : Reading Operands :=
  match mnemonic.shape, operands with
  | .none, [] => .ok .none
  | .oneRegister, [register] => do
    return .register (← register.readRegister)
  | .twoRegisters, [destination, source] => do
    return .pair (← destination.readRegister) (← source.readRegister)
  | .registerImmediate, [register, constant] => do
    return .immediate (← register.readRegister) (← constant.readImmediate options.signedness)
  | .registerAddress, [register, address] => do
    return .address (← register.readRegister) (← address.readRamAddress)
  | .jumpTarget, [target] => do
    return .target (← target.readTarget options.mode symbols)
  | _, _ =>
    .error (head.spanThrough operands,
      .operandCount mnemonic mnemonic.shape.operandCount operands.length)

/-- Any other number of operands is a fault. -/
theorem readOperands_of_not_count {options : AssemblyOptions} {symbols : Symbols} {head : Word}
    {mnemonic : Mnemonic} {operands : List Word}
    (wrong : operands.length ≠ mnemonic.shape.operandCount) :
    readOperands options symbols head mnemonic operands =
      .error (head.spanThrough operands,
        .operandCount mnemonic mnemonic.shape.operandCount operands.length) := by
  unfold readOperands
  split
  case h_7 => rfl
  all_goals
    rename_i shape
    exact absurd (congrArg Shape.operandCount shape).symm wrong

/-- **Operands that are read are of the shape that the mnemonic takes.** Putting them behind it
always gives an instruction, and this is the one that is read. -/
theorem ofOperands?_map_readOperands (options : AssemblyOptions) (symbols : Symbols)
    (head : Word) (mnemonic : Mnemonic) (operands : List Word) :
    Instruction.ofOperands? mnemonic <$> readOperands options symbols head mnemonic operands =
      some <$> readInstruction options symbols head mnemonic operands := by
  by_cases complete : operands.length = mnemonic.shape.operandCount
  · cases mnemonic with
    | bare op =>
      rw [List.length_eq_zero_iff.mp complete]
      rfl
    | unary | jump =>
      obtain ⟨operand, rfl⟩ := List.length_eq_one_iff.mp complete
      simp only [readOperands, readInstruction, Mnemonic.shape, map_bind, map_pure,
        Instruction.ofOperands?]
    | pair | immediate | memory =>
      obtain ⟨first, second, rfl⟩ := List.length_eq_two.mp complete
      simp only [readOperands, readInstruction, Mnemonic.shape, map_bind, map_pure,
        Instruction.ofOperands?]
  · rw [readOperands_of_not_count complete, readInstruction_of_not_count complete]
    rfl

/-- A fault that is found before the second pass if it is found at all. -/
inductive Fault.IsEarly : Fault → Prop where
  | programTooLarge (size : Nat) : IsEarly (.programTooLarge size)
  | unknownMnemonic (name : String) : IsEarly (.unknownMnemonic name)
  | duplicateLabel (name : String) (address : Nat) : IsEarly (.duplicateLabel name address)
  | invalidLabel (name : String) : IsEarly (.invalidLabel name)

/-- Joined words are longer than any of them but the first. -/
theorem length_lt_length_intercalate {α : Type} (separator : α) (first : List α) {word : List α}
    {words : List (List α)} (member : word ∈ words) :
    word.length < ([separator].intercalate (first :: words)).length := by
  induction words generalizing first with
  | nil => cases member
  | cons next others ih =>
    rw [List.intercalate_cons_cons, List.length_append, List.length_append, List.length_singleton]
    rcases List.mem_cons.mp member with rfl | later
    · have whole : word.length ≤ ([separator].intercalate (word :: others)).length := by
        cases others with
        | nil => exact Nat.le_of_eq (congrArg List.length (List.intercalate_singleton)).symm
        | cons next others =>
          rw [List.intercalate_cons_cons, List.append_assoc, List.length_append]
          exact Nat.le_add_right _ _
      omega
    · have shorter := ih next later
      omega

/-- No operand is as long as its line. -/
theorem text_ne_of_mem_operands {line : Line} {head word : Word} {operands : List Word}
    (written : line.content = .instruction head operands) (member : word ∈ operands) :
    word.text ≠ line.text := by
  intro same
  have inside : word.text.toList ∈ operands.map (·.text.toList) := List.mem_map_of_mem member
  have shorter := length_lt_length_intercalate ' ' head.text.toList inside
  have joined : line.text.toList =
      [' '].intercalate (head.text.toList :: operands.map (·.text.toList)) := by
    rw [Line.text, written, Content.text, String.toList_intercalate, List.map_cons, List.map_map]
    rfl
  rw [← joined, same] at shorter
  exact Nat.lt_irrefl _ shorter

theorem Word.Unfit.not_isEarly {options : AssemblyOptions} {labels : String → Nat → Prop}
    {word : Word} {kind : OperandKind} {fault : Fault}
    (unfit : word.Unfit options labels kind fault) : ¬fault.IsEarly := by
  intro early
  cases unfit <;> cases early

/-- **What a second pass can report.** -/
theorem not_isEarly_of_instructionFault {options : AssemblyOptions}
    {labels : String → Nat → Prop} {line : Line} {fault : Fault}
    (refused : InstructionFault options labels line fault) :
    ¬fault.IsEarly ∧ fault ≠ .malformedOperand line.text := by
  obtain ⟨head, operands, mnemonic, written, _, operandFault⟩ := refused
  cases operandFault with
  | count => exact ⟨nofun, nofun⟩
  | @unfit left right word kind fault _ place unfit _ =>
    have member : word ∈ operands :=
      (List.of_mem_zip (place ▸ List.mem_append_right left List.mem_cons_self)).1
    refine ⟨unfit.not_isEarly, ?_⟩
    have shorter := text_ne_of_mem_operands written member
    cases unfit <;> simp [shorter]

/-- **A listed label has the address that its line declares it at**, in the whole text, of which
only the first lines are listed. -/
theorem Resolves.exists_declared {options : AssemblyOptions} {labels : String → Nat → Prop}
    {above : List Line} {program : List Instruction}
    (resolves : Resolves options labels above program) (below : List Line) {entry : ListingEntry}
    (listed : entry ∈ listingFrom options.mode 0 above program) :
    ∃ line ∈ above ++ below, entry.Shows line ∧ ∀ name, line.content = .label name →
      DeclaredAt options.mode (above ++ below) (capitalized name.text) entry.address := by
  obtain ⟨upper, lower, split⟩ := List.append_of_mem listed
  obtain ⟨front, line, back, rfl, shows, address, size⟩ :=
    resolves.exists_line_of_listingFrom split
  rw [List.append_assoc, List.cons_append]
  refine ⟨line, List.mem_append_right front List.mem_cons_self, shows, ?_⟩
  intro name label
  refine ⟨front.length, line, getElem?_length_append, by rw [Line.label?, label], ?_⟩
  rw [address, size, Nat.zero_add, addressOf_length_append]

/-- **Faults of the layout and of the form are found early or not at all.** Every encoding is as
long as the opcode table says, and operands that are read always fit their mnemonic. So as soon as a
first pass has ended without a fault, whatever passes were run before it or since, a second pass
fails for the operands of a line only: never for the size of the program, for a mnemonic or
for a label that is declared twice or misplaced. However far it gets, it has listed each label at
the address at which the label is looked up. -/
theorem no_late_faults (options : AssemblyOptions) (source : String) (lines : List Line)
    (read : readSource source = .ok lines) :
    (∀ (mode : AddressMode) (instruction : Instruction),
      (instruction.encode mode).length = instruction.mnemonic.size mode) ∧
    (∀ symbols head mnemonic operands,
      Instruction.ofOperands? mnemonic <$> readOperands options symbols head mnemonic operands =
        some <$> readInstruction options symbols head mnemonic operands) ∧
    ∀ earlier later : List Pass,
      let fresh : Workbench := { options := options, lines := lines }
      let second := (fresh.after (earlier ++ .first :: later)).secondPass
      (fresh.after earlier).firstPass.1 = none →
        (∀ failure, second.1 = some failure → ∃ line ∈ lines, failure.line = line.raw.number ∧
          InstructionFault options (DeclaredAt options.mode lines) line failure.fault ∧
          ¬failure.fault.IsEarly ∧ failure.fault ≠ .malformedOperand line.text) ∧
        ∀ entry ∈ second.2.listing, ∃ line ∈ lines, entry.Shows line ∧
          ∀ name, line.content = .label name →
            second.2.symbols.get? name.text = some entry.address := by
  refine ⟨fun mode instruction => instruction.length_encode mode,
    ofOperands?_map_readOperands options, ?_⟩
  intro earlier later fresh second noFault
  have placed : placeFrom options.mode 0 {} lines =
      (none, (placeFrom options.mode 0 {} lines).2) := by
    rw [fresh.firstPass_after earlier] at noFault
    exact Prod.ext noFault rfl
  obtain ⟨_, _, entries, distinct⟩ := (placeFrom_zero_eq_none_iff _ _ _).mp placed
  have agree := get?_eq_some_iff_declaredAt entries distinct
  obtain ⟨outcome, listing, symbols⟩ := fresh.secondPass_after (earlier ++ .first :: later)
  rw [fresh.symbols_after (List.mem_append_right _ List.mem_cons_self)] at outcome listing symbols
  constructor
  · intro failure stopped
    have reports := emitFrom_reports placed (number_of_readSource read)
    rw [← outcome, stopped] at reports
    obtain ⟨index, number, only, _⟩ := reports
    obtain ⟨line, here, refused⟩ := (only failure.fault).mpr rfl
    refine ⟨line, List.mem_of_getElem? here, ?_, refused, not_isEarly_of_instructionFault refused⟩
    rw [number, number_of_readSource read index line here]
  · intro entry member
    obtain ⟨above, below, program, rfl, resolves, shown, _⟩ :=
      exists_program_of_emitFrom options agree lines
    rw [listing, shown] at member
    obtain ⟨line, inside, shows, declared⟩ := resolves.exists_declared below member
    refine ⟨line, inside, shows, fun name label => ?_⟩
    rw [symbols, agree]
    exact declared name label

theorem no_late_faults_of_undefined_label :
    let lines : List Line :=
      [⟨⟨1, 0, "add a,b".toList⟩, .instruction ⟨"ADD", ⟨0, 3⟩⟩ [⟨"A", ⟨4, 1⟩⟩, ⟨"B", ⟨6, 1⟩⟩]⟩,
        ⟨⟨2, 8, "on:".toList⟩, .label ⟨"ON", ⟨8, 2⟩⟩⟩,
        ⟨⟨3, 12, "jmp off".toList⟩, .instruction ⟨"JMP", ⟨12, 3⟩⟩ [⟨"OFF", ⟨16, 3⟩⟩]⟩]
    let fresh : Workbench := { options := {}, lines := lines }
    let bench := fresh.after [.second, .first]
    readSource "add a,b\non:\njmp off" = .ok lines ∧
      (fresh.after [.second]).firstPass.1 = none ∧
      bench.secondPass.1 = some ⟨3, "jmp off", ⟨16, 3⟩, .undefinedLabel "OFF"⟩ ∧
      ¬(Fault.undefinedLabel "OFF").IsEarly ∧
      bench.secondPass.2.listing =
        [⟨1, 0, [0x41], "ADD A B"⟩, ⟨2, 1, [], "ON:"⟩] ∧
      ∃ line ∈ lines, ListingEntry.Shows ⟨2, 1, [], "ON:"⟩ line ∧ ∀ name,
        line.content = .label name → bench.secondPass.2.symbols.get? name.text = some 1 := by
  intro lines fresh bench
  have read : readSource "add a,b\non:\njmp off" = .ok lines := by decide +kernel
  have noFault : (fresh.after [.second]).firstPass.1 = none := by decide +kernel
  have placed : (fresh.after [.second, .first]).symbols = ⟨[("ON", 1)]⟩ := by decide +kernel
  obtain ⟨outcome, listed, _⟩ := fresh.secondPass_after [.second, .first]
  rw [placed] at outcome listed
  have stopped : bench.secondPass.1 = some ⟨3, "jmp off", ⟨16, 3⟩, .undefinedLabel "OFF"⟩ :=
    outcome.trans (by decide +kernel)
  have listing : bench.secondPass.2.listing =
      [⟨1, 0, [0x41], "ADD A B"⟩, ⟨2, 1, [], "ON:"⟩] := listed.trans (by decide +kernel)
  obtain ⟨_, _, behind⟩ := no_late_faults {} _ lines read
  obtain ⟨faults, labels⟩ := behind [.second] [] noFault
  obtain ⟨_, _, _, _, late, _⟩ := faults _ stopped
  have member : ⟨2, 1, [], "ON:"⟩ ∈ bench.secondPass.2.listing := by
    rw [listing]
    exact List.mem_cons_of_mem _ (List.mem_singleton_self _)
  exact ⟨read, noFault, stopped, late, listing, labels _ member⟩

end Breadboard
