import Breadboard.Proofs.Assembly.Layout
import Breadboard.Proofs.Isa.MachineCode

/-!
# The listing of a program

The second pass keeps an address of its own, which grows by the bytes that are emitted.
It succeeds exactly if every instruction line means something and the program fits into
ROM, and then the listing shows the labels and the instructions at their addresses
(`emitFrom_eq_none_iff`). A line is as large as the instruction that it means, which
brings the two passes together (`Resolves.codeSize_eq`).
-/

namespace Breadboard

/-- The instruction lines among some lines mean the instructions of a program, in
order. -/
def Resolves (options : AssemblyOptions) (labels : String → Nat → Prop) (lines : List Line)
    (program : List Instruction) : Prop :=
  List.Forall₂ (fun words instruction => Means options labels words.1 words.2 instruction)
    (lines.filterMap Line.instruction?) program

/-- The listing of lines that mean a program and start at an address. -/
def listingFrom (mode : AddressMode) (address : Nat) :
    List Line → List Instruction → List ListingEntry
  | [], _ => []
  | line :: rest, program =>
    match line.content, program with
    | .blank, _ => listingFrom mode address rest program
    | .label _, _ =>
      ⟨line.raw.number, address, [], line.text⟩ :: listingFrom mode address rest program
    | .instruction _ _, instruction :: others =>
      ⟨line.raw.number, address, instruction.encode mode, line.text⟩ ::
        listingFrom mode (address + instruction.size mode) rest others
    | .instruction _ _, [] => []

section

variable {options : AssemblyOptions} {labels : String → Nat → Prop} {line : Line}
  {lines : List Line} {program : List Instruction}

theorem resolves_nil_iff : Resolves options labels [] program ↔ program = [] := by
  rw [Resolves, List.filterMap_nil, List.forall₂_nil_left_iff]

theorem resolves_cons_of_none (absent : line.instruction? = none) :
    Resolves options labels (line :: lines) program ↔ Resolves options labels lines program := by
  rw [Resolves, List.filterMap_cons_none absent, Resolves]

theorem resolves_cons_of_some {words : Word × List Word}
    (present : line.instruction? = some words) :
    Resolves options labels (line :: lines) program ↔
      ∃ instruction others, Means options labels words.1 words.2 instruction ∧
        Resolves options labels lines others ∧ program = instruction :: others := by
  rw [Resolves, List.filterMap_cons_some present, List.forall₂_cons_left_iff]
  rfl

/-- Lines keep their meaning if more constants are accepted and more labels are known. -/
theorem Resolves.mono {wider : AssemblyOptions} {more : String → Nat → Prop}
    (sameMode : wider.mode = options.mode)
    (lower : wider.signedness.lowest ≤ options.signedness.lowest)
    (known : ∀ name address, labels name address → more name address)
    (resolves : Resolves options labels lines program) : Resolves wider more lines program :=
  List.Forall₂.imp (fun _ _ meaning => meaning.mono sameMode lower known) resolves

/-- A line is as large as the instruction that it means. -/
theorem Means.size_eq {head : Word} {operands : List Word} {instruction : Instruction}
    (meaning : Means options labels head operands instruction)
    (present : line.instruction? = some (head, operands)) :
    line.size options.mode = instruction.size options.mode := by
  rw [Line.size, present]
  simp only [meaning.mnemonic, Option.map_some, Option.getD_some]
  rfl

theorem Line.size_eq_zero_of_none {mode : AddressMode} (absent : line.instruction? = none) :
    line.size mode = 0 := by
  rw [Line.size, absent]

/-- **The two passes count alike.** -/
theorem Resolves.codeSize_eq (resolves : Resolves options labels lines program) :
    totalSize options.mode lines = codeSize options.mode program := by
  induction lines generalizing program with
  | nil =>
    rw [resolves_nil_iff.mp resolves]
    rfl
  | cons line lines ih =>
    rw [totalSize_cons]
    cases content : line.instruction? with
    | none =>
      rw [ih ((resolves_cons_of_none content).mp resolves), Line.size_eq_zero_of_none content,
        Nat.zero_add]
    | some words =>
      obtain ⟨instruction, others, meaning, rest, rfl⟩ :=
        (resolves_cons_of_some content).mp resolves
      rw [codeSize_cons, ih rest, meaning.size_eq content]

/-- A line that means something has a mnemonic that is known. -/
theorem Resolves.isNamed (resolves : Resolves options labels lines program) :
    ∀ line ∈ lines, line.IsNamed := by
  induction lines generalizing program with
  | nil => nofun
  | cons line lines ih =>
    rw [List.forall_mem_cons]
    cases content : line.instruction? with
    | none =>
      refine ⟨?_, ih ((resolves_cons_of_none content).mp resolves)⟩
      intro head operands present
      rw [content] at present
      cases present
    | some words =>
      obtain ⟨instruction, others, meaning, rest, rfl⟩ :=
        (resolves_cons_of_some content).mp resolves
      refine ⟨?_, ih rest⟩
      intro head operands present
      rw [content] at present
      cases present
      exact ⟨_, meaning.mnemonic⟩

/-- The bytes of the listing are those of the program. -/
theorem Resolves.listingBytes_eq (resolves : Resolves options labels lines program)
    (address : Nat) :
    listingBytes (listingFrom options.mode address lines program) =
      machineCode options.mode program := by
  induction lines generalizing program address with
  | nil =>
    rw [resolves_nil_iff.mp resolves]
    rfl
  | cons line lines ih =>
    obtain ⟨raw, content⟩ := line
    cases content with
    | blank => exact ih ((resolves_cons_of_none rfl).mp resolves) address
    | label name => exact ih ((resolves_cons_of_none rfl).mp resolves) address
    | instruction head operands =>
      obtain ⟨instruction, others, meaning, rest, rfl⟩ := (resolves_cons_of_some rfl).mp resolves
      rw [machineCode_cons, ← ih rest (address + instruction.size options.mode)]
      rfl

end

/-- **The second pass.** It ends without a fault exactly if the instruction lines mean a
program that fits into ROM, and then its listing is the listing of that program. -/
theorem emitFrom_eq_none_iff {options : AssemblyOptions} {symbols : Symbols}
    {labels : String → Nat → Prop}
    (agree : ∀ name address, symbols.get? name = some address ↔ labels (capitalized name) address)
    (address : Nat) (start : address ≤ romSize) (lines : List Line) (entries : List ListingEntry) :
    emitFrom options symbols address lines = (none, entries) ↔
      ∃ program, Resolves options labels lines program ∧
        address + codeSize options.mode program ≤ romSize ∧
        entries = listingFrom options.mode address lines program := by
  induction lines generalizing address entries with
  | nil =>
    simp only [resolves_nil_iff, exists_eq_left]
    rw [emitFrom, codeSize_nil, listingFrom, Prod.mk.injEq]
    constructor
    · intro run
      obtain ⟨_, rfl⟩ := run
      exact ⟨start, rfl⟩
    · intro described
      obtain ⟨_, rfl⟩ := described
      exact ⟨rfl, rfl⟩
  | cons line lines ih =>
    obtain ⟨raw, content⟩ := line
    cases content with
    | blank => exact ih address start entries
    | label name =>
      have rest := fun others => ih address start others
      simp only [emitFrom, Line.emit, List.length_nil, Nat.add_zero, Prod.mk.injEq]
      constructor
      · intro run
        obtain ⟨noFault, rfl⟩ := run
        obtain ⟨program, resolves, fits, same⟩ := (rest _).mp (Prod.ext noFault rfl)
        refine ⟨program, (resolves_cons_of_none rfl).mpr resolves, fits, ?_⟩
        exact congrArg (List.cons _) same
      · intro described
        obtain ⟨program, resolves, fits, rfl⟩ := described
        have run := (rest _).mpr ⟨program, (resolves_cons_of_none rfl).mp resolves, fits, rfl⟩
        rw [run]
        exact ⟨rfl, rfl⟩
    | instruction head operands =>
      have reading : (head.readMnemonic >>= fun mnemonic =>
          readInstruction options symbols head mnemonic operands) =
            readLine options symbols head operands := rfl
      simp only [emitFrom, Line.emit, reading]
      constructor
      · intro run
        cases read : readLine options symbols head operands with
        | error failure =>
          rw [read] at run
          cases run
        | ok instruction =>
          rw [read] at run
          simp only at run
          by_cases large : romSize < address + (instruction.encode options.mode).length
          · rw [if_pos large] at run
            cases run
          · rw [if_neg large] at run
            simp only [Prod.mk.injEq, instruction.length_encode] at run large
            obtain ⟨noFault, rfl⟩ := run
            obtain ⟨program, resolves, fits, same⟩ :=
              (ih _ (Nat.not_lt.mp large) _).mp (Prod.ext noFault rfl)
            have meaning := (readLine_eq_ok_iff_means agree).mp read
            refine ⟨instruction :: program, ?_, ?_, congrArg (List.cons _) same⟩
            · exact (resolves_cons_of_some rfl).mpr ⟨instruction, program, meaning, resolves, rfl⟩
            · rw [codeSize_cons, ← Nat.add_assoc]
              exact fits
      · intro described
        obtain ⟨program, resolves, fits, rfl⟩ := described
        obtain ⟨instruction, others, meaning, rest, rfl⟩ := (resolves_cons_of_some rfl).mp resolves
        rw [codeSize_cons, ← Nat.add_assoc] at fits
        have inRom : address + instruction.size options.mode ≤ romSize := by omega
        have run := (ih _ inRom _).mpr ⟨others, rest, fits, rfl⟩
        rw [(readLine_eq_ok_iff_means agree).mpr meaning]
        simp only [instruction.length_encode, if_neg (Nat.not_lt.mpr inRom), run]
        rfl

end Breadboard
