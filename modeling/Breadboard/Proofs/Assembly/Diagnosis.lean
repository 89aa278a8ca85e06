import Breadboard.Proofs.Assembly.OperandFaults

/-!
# The reported fault

There are three phases in which a text can be at fault: the form of its lines, their layout,
and their operands. A text is assembled exactly if it has no fault at all, and otherwise the
first fault of the earliest phase is reported (`assemble_reports_earliest_fault`). So a fault
may hide one that stands above it, if that one belongs to a later phase.
-/

namespace Breadboard

/-- What is looked at while a text is assembled. -/
inductive Phase where
  | form
  | layout
  | operands
deriving DecidableEq, Repr

/-- Counts the phases from the earliest one on. -/
def Phase.order : Phase → Nat
  | form => 0
  | layout => 1
  | operands => 2

/-- A fault of a text in a line, counted from zero on. The later phases look at lines that are
well formed. -/
def FaultAt (options : AssemblyOptions) (source : String) (phase : Phase) (index : Nat)
    (fault : Fault) : Prop :=
  match phase with
  | .form => ∃ raw, (writtenLines source)[index]? = some raw ∧ FormFault raw.characters fault
  | .layout => ∃ lines, readSource source = .ok lines ∧ LayoutFault options.mode lines index fault
  | .operands => ∃ lines line, readSource source = .ok lines ∧ lines[index]? = some line ∧
    InstructionFault options (DeclaredAt options.mode lines) line fault

/-- The phases before the given one find no fault. -/
def NoneBefore (options : AssemblyOptions) (source : String) (phase : Phase) : Prop :=
  ∀ earlier : Phase, earlier.order < phase.order → ∀ index fault,
    ¬FaultAt options source earlier index fault

/-- The fault of the first faulty line in the earliest phase that has any. -/
def EarliestFault (options : AssemblyOptions) (source : String) (index : Nat) (fault : Fault) :
    Prop :=
  ∃ phase, FirstFault (FaultAt options source phase) index fault ∧
    NoneBefore options source phase

section

variable {options : AssemblyOptions} {source : String} {phase : Phase} {failure : CompileError}

/-- What a phase reports is the earliest fault if the phases before it have none. -/
theorem earliestFault_iff (reports : Reports (FaultAt options source phase) (some failure))
    (noneBefore : NoneBefore options source phase) (index : Nat) (fault : Fault) :
    EarliestFault options source index fault ↔
      failure.line = index + 1 ∧ failure.fault = fault := by
  rw [← reports.firstFault_iff]
  constructor
  · intro earliest
    obtain ⟨other, first, noneEarlier⟩ := earliest
    rcases Nat.lt_trichotomy other.order phase.order with before | same | behind
    · exact absurd first.1 (noneBefore other before index fault)
    · have samePhase : other = phase := by
        cases other <;> cases phase <;> first | rfl | cases same
      rw [← samePhase]
      exact first
    · obtain ⟨place, _, only, _⟩ := reports
      exact absurd ((only failure.fault).mpr rfl) (noneEarlier phase behind place _)
  · intro first
    exact ⟨phase, first, noneBefore⟩

/-- Without a fault of form, the later phases are about the lines that are read. -/
theorem faultAt_layout {lines : List Line} (read : readSource source = .ok lines) :
    FaultAt options source .layout = LayoutFault options.mode lines := by
  funext index fault
  apply propext
  unfold FaultAt
  simp only [read, Except.ok.injEq, exists_eq_left']

theorem faultAt_operands {lines : List Line} (read : readSource source = .ok lines) :
    FaultAt options source .operands = fun index fault =>
      ∃ line, lines[index]? = some line ∧
        InstructionFault options (DeclaredAt options.mode lines) line fault := by
  funext index fault
  apply propext
  unfold FaultAt
  simp only [read, Except.ok.injEq, exists_and_left, exists_eq_left']

/-- **Either a phase reports, or there is nothing to report.** -/
theorem assemble_cases (options : AssemblyOptions) (source : String) :
    (∃ image, assemble options source = .ok image ∧
      ∀ phase index fault, ¬FaultAt options source phase index fault) ∨
    ∃ failure phase, assemble options source = .error failure ∧
      Reports (FaultAt options source phase) (some failure) ∧
      NoneBefore options source phase := by
  have form := readSource_reports source
  cases read : readSource source with
  | error failure =>
    rw [read] at form
    right
    exact ⟨failure, .form, assemble_eq_error_of_read read, form, nofun⟩
  | ok lines =>
    rw [read] at form
    have numbers := number_of_readSource read
    have layout := placeFrom_reports options.mode numbers
    rw [← faultAt_layout read] at layout
    cases placed : placeFrom options.mode 0 {} lines with
    | mk failure? table =>
      cases failure? with
      | some failure =>
        have stopped : (placeFrom options.mode 0 {} lines).1 = some failure := by rw [placed]
        rw [stopped] at layout
        right
        refine ⟨failure, .layout, assemble_eq_error_of_place read stopped, layout, ?_⟩
        rintro (_ | _ | _) before
        · exact form
        · exact absurd before (Nat.lt_irrefl _)
        · exact absurd before (by decide)
      | none =>
        rw [placed] at layout
        have operands := emitFrom_reports placed numbers
        rw [← faultAt_operands read] at operands
        cases emitted : emitFrom options table 0 lines with
        | mk failure? entries =>
          rw [emitted] at operands
          cases failure? with
          | some failure =>
            have stopped : (emitFrom options table 0 lines).1 = some failure := by rw [emitted]
            right
            refine ⟨failure, .operands, assemble_eq_error_of_emit read placed stopped, operands, ?_⟩
            rintro (_ | _ | _) before
            · exact form
            · exact layout
            · exact absurd before (Nat.lt_irrefl _)
          | none =>
            left
            refine ⟨_, (assemble_eq_ok_iff_passes options source _).mpr
              ⟨lines, table, entries, read, placed, emitted, rfl⟩, ?_⟩
            rintro (_ | _ | _)
            · exact form
            · exact layout
            · exact operands

end

/-- **The reported fault is exact.** A text is assembled exactly if it has no fault. Otherwise
the failure that is reported is the first fault of the earliest phase, with the number of its
line. The lines that the later phases look at say what is written. -/
theorem assemble_reports_earliest_fault (options : AssemblyOptions) (source : String) :
    ((∃ image, assemble options source = .ok image) ↔
      ∀ phase index fault, ¬FaultAt options source phase index fault) ∧
    (∀ number fault,
      (∃ failure, assemble options source = .error failure ∧ failure.line = number ∧
        failure.fault = fault) ↔
      ∃ index, number = index + 1 ∧ EarliestFault options source index fault) ∧
    ∀ lines, readSource source = .ok lines →
      List.Forall₂ (fun raw line => line.raw = raw ∧ Says raw.characters line.content)
        (writtenLines source) lines := by
  rcases assemble_cases options source with
    ⟨image, success, noFault⟩ | ⟨failure, phase, failed, reports, noneBefore⟩
  · refine ⟨⟨fun _ => noFault, fun _ => ⟨image, success⟩⟩, ?_, fun _ => lines_of_readSource⟩
    intro number fault
    constructor
    · rintro ⟨failure, failed, _⟩
      rw [success] at failed
      cases failed
    · rintro ⟨index, _, phase, first, _⟩
      exact absurd first.1 (noFault phase index fault)
  · have earliest := earliestFault_iff reports noneBefore
    obtain ⟨place, line, only, _⟩ := reports
    refine ⟨⟨?_, ?_⟩, ?_, fun _ => lines_of_readSource⟩
    · rintro ⟨image, success⟩
      rw [success] at failed
      cases failed
    · intro noFault
      exact absurd ((only failure.fault).mpr rfl) (noFault phase place _)
    · intro number fault
      constructor
      · rintro ⟨other, otherFailed, rfl, rfl⟩
        cases failed.symm.trans otherFailed
        exact ⟨place, line, (earliest place failure.fault).mpr ⟨line, rfl⟩⟩
      · rintro ⟨index, rfl, found⟩
        obtain ⟨sameLine, sameFault⟩ := (earliest index fault).mp found
        exact ⟨failure, failed, sameLine, sameFault⟩

theorem assemble_reports_earliest_fault_of_hidden_label :
    let lines : List Line :=
      [⟨⟨1, 0, "jmp on".toList⟩, .instruction ⟨"JMP", ⟨0, 3⟩⟩ [⟨"ON", ⟨4, 2⟩⟩]⟩,
        ⟨⟨2, 7, "foo a".toList⟩, .instruction ⟨"FOO", ⟨7, 3⟩⟩ [⟨"A", ⟨11, 1⟩⟩]⟩]
    readSource "jmp on\nfoo a" = .ok lines ∧
      EarliestFault {} "jmp on\nfoo a" 1 (.unknownMnemonic "FOO") ∧
      FaultAt {} "jmp on\nfoo a" .operands 0 (.undefinedLabel "ON") ∧
      ¬∃ image, assemble {} "jmp on\nfoo a" = .ok image := by
  intro lines
  have read : readSource "jmp on\nfoo a" = .ok lines := by decide +kernel
  have failed : assemble {} "jmp on\nfoo a" =
      .error ⟨2, "foo a", ⟨7, 3⟩, .unknownMnemonic "FOO"⟩ := by decide +kernel
  have undeclared : ∀ address, ¬DeclaredAt .elevenBit lines "ON" address := by
    rintro address ⟨index, line, here, label, _⟩
    have member := List.mem_of_getElem? here
    simp only [lines, List.mem_cons, List.not_mem_nil, or_false] at member
    rcases member with rfl | rfl <;> cases label
  have named : capitalized "JMP" = (Mnemonic.jump .always).text := by decide
  have place : [Word.mk "ON" ⟨4, 2⟩].zip (Mnemonic.jump .always).shape.operandKinds =
      [] ++ (⟨"ON", ⟨4, 2⟩⟩, .target) :: [] := rfl
  have hidden : FaultAt {} "jmp on\nfoo a" .operands 0 (.undefinedLabel "ON") :=
    ⟨lines, _, read, rfl, _, _, .jump .always, rfl, named,
      .unfit rfl place (.undefined (by decide) undeclared) (List.forall_mem_nil _)⟩
  obtain ⟨accepted, reported, _⟩ := assemble_reports_earliest_fault {} "jmp on\nfoo a"
  obtain ⟨index, number, earliest⟩ := (reported _ _).mp ⟨_, failed, rfl, rfl⟩
  cases number
  refine ⟨read, earliest, hidden, fun success => ?_⟩
  exact accepted.mp success .operands 0 _ hidden

end Breadboard
