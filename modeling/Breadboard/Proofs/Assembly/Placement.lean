import Breadboard.Proofs.Assembly.Correctness

/-!
# Lines and their addresses

The program that the lines of a text mean falls apart where the text does, so the address of
a line is the size of the instructions above it (`Resolves.exists_at`), and every instruction
of the program stands at the address of its line (`Resolves.exists_line`). Lines without an
instruction take up nothing, so the address of any line is that of the first instruction line
from there on (`entersAt_addressOf`).
-/

namespace Breadboard

section

variable {mode : AddressMode} {lines : List Line} {index : Nat} {line : Line}

theorem totalSize_append (mode : AddressMode) (above below : List Line) :
    totalSize mode (above ++ below) = totalSize mode above + totalSize mode below := by
  rw [totalSize, List.map_append, List.sum_append, totalSize, totalSize]

theorem addressOf_succ (here : lines[index]? = some line) :
    addressOf mode lines (index + 1) = addressOf mode lines index + line.size mode := by
  rw [addressOf, List.take_add_one, here, totalSize_append, Option.toList_some, totalSize_cons,
    totalSize_nil, Nat.add_zero, addressOf]

end

namespace Resolves

variable {options : AssemblyOptions} {labels : String → Nat → Prop}
  {above below lines : List Line} {program front back : List Instruction}

/-- The program of a text falls apart where the text does. -/
theorem exists_append (resolves : Resolves options labels (above ++ below) program) :
    ∃ front back, program = front ++ back ∧ Resolves options labels above front ∧
      Resolves options labels below back := by
  induction above generalizing program with
  | nil => exact ⟨[], program, rfl, resolves_nil_iff.mpr rfl, resolves⟩
  | cons line above ih =>
    rw [List.cons_append] at resolves
    cases written : line.instruction? with
    | none =>
      obtain ⟨front, back, same, upper, lower⟩ := ih ((resolves_cons_of_none written).mp resolves)
      exact ⟨front, back, same, (resolves_cons_of_none written).mpr upper, lower⟩
    | some words =>
      obtain ⟨instruction, others, meaning, rest, rfl⟩ :=
        (resolves_cons_of_some written).mp resolves
      obtain ⟨front, back, rfl, upper, lower⟩ := ih rest
      exact ⟨instruction :: front, back, rfl,
        (resolves_cons_of_some written).mpr ⟨instruction, front, meaning, upper, rfl⟩, lower⟩

/-- The address of a line is the size of the instructions above it. -/
theorem exists_split (resolves : Resolves options labels lines program) (index : Nat) :
    ∃ front back, program = front ++ back ∧
      Resolves options labels (lines.take index) front ∧
      Resolves options labels (lines.drop index) back ∧
      codeSize options.mode front = addressOf options.mode lines index := by
  rw [← List.take_append_drop index lines] at resolves
  obtain ⟨front, back, same, upper, lower⟩ := resolves.exists_append
  exact ⟨front, back, same, upper, lower, upper.codeSize_eq.symm⟩

/-- An instruction line stands at the address of the instruction that it means. -/
theorem exists_at (resolves : Resolves options labels lines program) {index : Nat} {line : Line}
    {head : Word} {operands : List Word} (here : lines[index]? = some line)
    (written : line.instruction? = some (head, operands)) :
    ∃ front instruction back, program = front ++ instruction :: back ∧
      Resolves options labels (lines.take index) front ∧
      Means options labels head operands instruction ∧
      codeSize options.mode front = addressOf options.mode lines index := by
  obtain ⟨front, back, same, upper, lower, address⟩ := resolves.exists_split index
  obtain ⟨inside, rfl⟩ := List.getElem?_eq_some_iff.mp here
  rw [List.drop_eq_getElem_cons inside] at lower
  obtain ⟨instruction, others, meaning, _, rfl⟩ := (resolves_cons_of_some written).mp lower
  exact ⟨front, instruction, others, same, upper, meaning, address⟩

/-- Every instruction of the program is that of a line at its address. -/
theorem exists_line {instruction : Instruction}
    (resolves : Resolves options labels lines (front ++ instruction :: back)) :
    ∃ index line head operands, lines[index]? = some line ∧
      line.instruction? = some (head, operands) ∧
      Means options labels head operands instruction ∧
      addressOf options.mode lines index = codeSize options.mode front := by
  induction lines generalizing front with
  | nil =>
    have absent := resolves_nil_iff.mp resolves
    simp at absent
  | cons line lines ih =>
    cases written : line.instruction? with
    | none =>
      obtain ⟨index, found, head, operands, here, words, meaning, address⟩ :=
        ih ((resolves_cons_of_none written).mp resolves)
      refine ⟨index + 1, found, head, operands, here, words, meaning, ?_⟩
      rw [addressOf_cons_succ, Line.size_eq_zero_of_none written, Nat.zero_add, address]
    | some words =>
      obtain ⟨first, others, meaning, rest, same⟩ := (resolves_cons_of_some written).mp resolves
      cases front with
      | nil =>
        obtain ⟨rfl, rfl⟩ := List.cons.inj same
        exact ⟨0, line, words.1, words.2, rfl, written, meaning, rfl⟩
      | cons leading front =>
        obtain ⟨rfl, rfl⟩ := List.cons.inj same
        obtain ⟨index, found, head, operands, here, others, laterMeaning, address⟩ := ih rest
        refine ⟨index + 1, found, head, operands, here, others, laterMeaning, ?_⟩
        rw [addressOf_cons_succ, meaning.size_eq written, address, codeSize_cons]

end Resolves

end Breadboard
