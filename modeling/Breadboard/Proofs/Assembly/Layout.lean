import Breadboard.Assembly.Draft
import Breadboard.Proofs.Assembly.Meaning
import Breadboard.Proofs.Assembly.Table
import Mathlib.Algebra.Ring.Nat
import Mathlib.Data.List.ReduceOption

/-!
# The layout of a source text

The address of a line is the sum of the sizes of the lines above it, where a line is as
large as its mnemonic says and every other line takes up nothing. The labels of a text
are its label lines with their addresses. The first pass computes exactly this table,
and it succeeds exactly if every mnemonic is known, no two label lines share a name and
the whole text fits into ROM (`placeFrom_zero_eq_none_iff`).
-/

namespace Breadboard

namespace Line

/-- The name that the line declares, in capitals. -/
def label? (line : Line) : Option String :=
  match line.content with
  | .label name => some (capitalized name.text)
  | .blank | .instruction _ _ => none

/-- The mnemonic and the operands of an instruction line. -/
def instruction? (line : Line) : Option (Word × List Word) :=
  match line.content with
  | .instruction head operands => some (head, operands)
  | .blank | .label _ => none

/-- The bytes that the line takes up, by its mnemonic. -/
def size (mode : AddressMode) (line : Line) : Nat :=
  match line.instruction? with
  | some (head, _) => ((Mnemonic.ofText? head.text).map (·.size mode)).getD 0
  | none => 0

/-- Whether the mnemonic of the line is known, if it has one. -/
def IsNamed (line : Line) : Prop :=
  ∀ head operands, line.instruction? = some (head, operands) →
    ∃ mnemonic, Mnemonic.ofText? head.text = some mnemonic

end Line

/-- How many bytes the instruction lines among some lines take up. -/
def totalSize (mode : AddressMode) (lines : List Line) : Nat :=
  (lines.map (·.size mode)).sum

/-- The address of a line of a text that starts at zero. -/
def addressOf (mode : AddressMode) (lines : List Line) (index : Nat) : Nat :=
  totalSize mode (lines.take index)

/-- The label lines of a text with their addresses, where the first line stands at a
given address. -/
def labelsFrom (mode : AddressMode) (start : Nat) (lines : List Line) : List (String × Nat) :=
  (lines.mapIdx fun index line =>
    line.label?.map fun name => (name, start + addressOf mode lines index)).reduceOption

/-- Whether some line declares the name and stands at the address. -/
def DeclaredAt (mode : AddressMode) (lines : List Line) (name : String) (address : Nat) : Prop :=
  ∃ index line, lines[index]? = some line ∧ line.label? = some name ∧
    address = addressOf mode lines index

section

variable (mode : AddressMode) (start : Nat) (line : Line) (lines : List Line)

@[simp] theorem totalSize_nil : totalSize mode [] = 0 := rfl

@[simp] theorem totalSize_cons :
    totalSize mode (line :: lines) = line.size mode + totalSize mode lines := by
  simp only [totalSize, List.map_cons, List.sum_cons]

@[simp] theorem addressOf_zero : addressOf mode lines 0 = 0 := rfl

@[simp] theorem addressOf_cons_succ (index : Nat) :
    addressOf mode (line :: lines) (index + 1) = line.size mode + addressOf mode lines index := by
  rw [addressOf, List.take_succ_cons, totalSize_cons, addressOf]

theorem addressOf_le_totalSize (index : Nat) :
    addressOf mode lines index ≤ totalSize mode lines := by
  induction lines generalizing index with
  | nil => simp [addressOf]
  | cons line lines ih =>
    cases index with
    | zero => exact Nat.zero_le _
    | succ index =>
      rw [addressOf_cons_succ, totalSize_cons]
      exact Nat.add_le_add_left (ih index) _

theorem addressOf_length : addressOf mode lines lines.length = totalSize mode lines := by
  rw [addressOf, List.take_length]

@[simp] theorem labelsFrom_nil : labelsFrom mode start [] = [] := rfl

theorem labelsFrom_cons :
    labelsFrom mode start (line :: lines) =
      (line.label?.map (·, start)).toList ++ labelsFrom mode (start + line.size mode) lines := by
  have others : (lines.mapIdx fun index other =>
      other.label?.map fun name => (name, start + addressOf mode (line :: lines) (index + 1))) =
      lines.mapIdx fun index other => other.label?.map fun name =>
        (name, start + line.size mode + addressOf mode lines index) := by
    simp only [addressOf_cons_succ, Nat.add_assoc]
  rw [labelsFrom, List.mapIdx_cons, others, labelsFrom]
  cases line.label? <;> rfl

theorem map_fst_labelsFrom :
    (labelsFrom mode start lines).map Prod.fst = lines.filterMap Line.label? := by
  induction lines generalizing start with
  | nil => rfl
  | cons line lines ih =>
    rw [labelsFrom_cons, List.map_append, ih, List.filterMap_cons]
    cases line.label? <;> rfl

theorem mem_labelsFrom_zero_iff (name : String) (address : Nat) :
    (name, address) ∈ labelsFrom mode 0 lines ↔ DeclaredAt mode lines name address := by
  rw [labelsFrom, List.reduceOption_mem_iff, List.mem_mapIdx, DeclaredAt]
  constructor
  · intro member
    obtain ⟨index, inside, found⟩ := member
    obtain ⟨declared, label, same⟩ := Option.map_eq_some_iff.mp found
    obtain ⟨rfl, rfl⟩ := Prod.mk.inj same
    exact ⟨index, lines[index], List.getElem?_eq_getElem inside, label, Nat.zero_add _⟩
  · intro declared
    obtain ⟨index, line, present, label, rfl⟩ := declared
    obtain ⟨inside, rfl⟩ := List.getElem?_eq_some_iff.mp present
    refine ⟨index, inside, ?_⟩
    rw [label, Option.map_some, Nat.zero_add]

end

namespace Line

section

variable {mode : AddressMode} {address : Nat} (start : address ≤ romSize) {symbols : Symbols}
  (distinct : (symbols.entries.map Prod.fst).Nodup) (raw : RawLine) (next : Nat)
  (extended : Symbols)

include distinct

theorem place_label_eq_ok_iff (name : Word) :
    (Line.mk raw (.label name)).place mode address symbols = .ok (next, extended) ↔
      next = address ∧
        extended.entries = symbols.entries ++ [(capitalized name.text, address)] ∧
        (extended.entries.map Prod.fst).Nodup := by
  rw [← Symbols.insert_eq_none_iff distinct]
  simp only [place]
  rcases symbols.insert name.text address with ⟨_ | earlier, table⟩
  · simp only [Except.ok.injEq, Prod.mk.injEq, true_and]
    exact and_congr_left fun _ => eq_comm
  · simp

include start

/-- **Moving past a line.** It adds the size of the line to the address, and the label
that the line declares to the table. -/
theorem place_eq_ok_iff (line : Line) :
    line.place mode address symbols = .ok (next, extended) ↔
      line.IsNamed ∧ next = address + line.size mode ∧ next ≤ romSize ∧
        extended.entries = symbols.entries ++ (line.label?.map (·, address)).toList ∧
        (extended.entries.map Prod.fst).Nodup := by
  obtain ⟨raw, content⟩ := line
  cases content with
  | blank =>
    simp only [place, IsNamed, instruction?, size, label?, Option.map_none, Option.toList_none,
      List.append_nil, Nat.add_zero, Except.ok.injEq, Prod.mk.injEq]
    refine ⟨fun moved => ?_, fun moved => ?_⟩
    · obtain ⟨rfl, rfl⟩ := moved
      exact ⟨by rintro _ _ ⟨⟩, rfl, start, rfl, distinct⟩
    · obtain ⟨_, rfl, _, same, _⟩ := moved
      exact ⟨rfl, congrArg Symbols.mk same.symm⟩
  | label name =>
    rw [place_label_eq_ok_iff distinct]
    simp only [IsNamed, instruction?, size, label?, Option.map_some, Option.toList_some,
      Nat.add_zero]
    refine ⟨fun moved => ?_, fun moved => ?_⟩
    · obtain ⟨rfl, declared⟩ := moved
      exact ⟨by rintro _ _ ⟨⟩, rfl, start, declared⟩
    · obtain ⟨_, same, _, declared⟩ := moved
      exact ⟨same, declared⟩
  | instruction head operands =>
    simp only [place, IsNamed, instruction?, size, label?, Option.map_none, Option.toList_none,
      List.append_nil, Word.readMnemonic]
    cases known : Mnemonic.ofText? head.text with
    | none =>
      refine ⟨by rintro ⟨⟩, fun moved => ?_⟩
      obtain ⟨mnemonic, found⟩ := moved.1 head operands rfl
      rw [known] at found
      cases found
    | some mnemonic =>
      simp only [Option.map_some, Option.getD_some]
      by_cases large : romSize < address + mnemonic.size mode
      · simp only [large, if_true]
        refine ⟨by rintro ⟨⟩, fun moved => ?_⟩
        obtain ⟨_, rfl, fits, _⟩ := moved
        exact absurd fits (Nat.not_le.mpr large)
      · simp only [large, if_false, Except.ok.injEq, Prod.mk.injEq]
        refine ⟨fun moved => ?_, fun moved => ?_⟩
        · obtain ⟨rfl, rfl⟩ := moved
          refine ⟨fun other others same => ?_, rfl, Nat.not_lt.mp large, rfl, distinct⟩
          cases same
          exact ⟨mnemonic, known⟩
        · obtain ⟨_, rfl, _, same, _⟩ := moved
          exact ⟨rfl, congrArg Symbols.mk same.symm⟩

end

end Line

theorem placeFrom_eq_none_iff {mode : AddressMode} {address : Nat} (start : address ≤ romSize)
    {symbols : Symbols} (distinct : (symbols.entries.map Prod.fst).Nodup) (lines : List Line)
    (table : Symbols) :
    placeFrom mode address symbols lines = (none, table) ↔
      (∀ line ∈ lines, line.IsNamed) ∧ address + totalSize mode lines ≤ romSize ∧
        table.entries = symbols.entries ++ labelsFrom mode address lines ∧
        (table.entries.map Prod.fst).Nodup := by
  induction lines generalizing address symbols with
  | nil =>
    rw [placeFrom, Prod.mk.injEq, totalSize_nil, labelsFrom_nil, List.append_nil]
    constructor
    · intro run
      obtain ⟨_, rfl⟩ := run
      exact ⟨by rintro _ ⟨⟩, start, rfl, distinct⟩
    · intro described
      obtain ⟨_, _, same, _⟩ := described
      exact ⟨rfl, congrArg Symbols.mk same.symm⟩
  | cons line lines ih =>
    rw [placeFrom, List.forall_mem_cons, totalSize_cons, labelsFrom_cons, ← Nat.add_assoc,
      ← List.append_assoc]
    constructor
    · intro run
      split at run
      next next extended placed =>
        obtain ⟨named, rfl, fits, entries, distinctAfter⟩ :=
          (Line.place_eq_ok_iff start distinct _ _ line).mp placed
        obtain ⟨others, rest⟩ := (ih fits distinctAfter).mp run
        rw [entries] at rest
        exact ⟨⟨named, others⟩, rest⟩
      next => cases run
    · intro described
      obtain ⟨⟨named, others⟩, fits, entries, distinctAfter⟩ := described
      have entriesAfter := distinctAfter
      rw [entries, List.map_append, List.nodup_append] at entriesAfter
      have placed : line.place mode address symbols = .ok (address + line.size mode,
          ⟨symbols.entries ++ (line.label?.map (·, address)).toList⟩) :=
        (Line.place_eq_ok_iff start distinct _ _ line).mpr
          ⟨named, rfl, by omega, rfl, entriesAfter.1⟩
      rw [placed]
      exact (ih (by omega) entriesAfter.1).mpr ⟨others, fits, entries, distinctAfter⟩

/-- **The first pass.** It ends without a fault exactly if every mnemonic is known, no
two labels share a name, and the text fits into ROM; the labels are then in the table,
each with the address of its line. -/
theorem placeFrom_zero_eq_none_iff (mode : AddressMode) (lines : List Line) (table : Symbols) :
    placeFrom mode 0 {} lines = (none, table) ↔
      (∀ line ∈ lines, line.IsNamed) ∧ totalSize mode lines ≤ romSize ∧
        table.entries = labelsFrom mode 0 lines ∧ (lines.filterMap Line.label?).Nodup := by
  have noneYet : ((Symbols.mk []).entries.map Prod.fst).Nodup := List.nodup_nil
  rw [placeFrom_eq_none_iff (Nat.zero_le _) noneYet, Nat.zero_add, List.nil_append]
  refine and_congr_right fun _ => and_congr_right fun _ => and_congr_right fun entries => ?_
  rw [entries, map_fst_labelsFrom]

/-- The table of the first pass finds a name at the address of the line that declares
it. -/
theorem get?_eq_some_iff_declaredAt {mode : AddressMode} {lines : List Line} {table : Symbols}
    (entries : table.entries = labelsFrom mode 0 lines)
    (distinct : (lines.filterMap Line.label?).Nodup) (name : String) (address : Nat) :
    table.get? name = some address ↔ DeclaredAt mode lines (capitalized name) address := by
  rw [← map_fst_labelsFrom mode 0] at distinct
  rw [Symbols.get?, entries, lookup_eq_some_iff_mem distinct, mem_labelsFrom_zero_iff]

end Breadboard
