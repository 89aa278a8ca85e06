import Breadboard.Source.Literal
import Breadboard.Source.Token
import Mathlib.Data.List.Forall2

/-!
# Reading numerals that were written

Every digit is read as the value that it was written for, so that a written numeral is
read as its number (`Radix.read?_write`), with the marks of a literal in front of it too
(`Literal.read?_hex`). A word that could name a label is never a number, and whether letters are
small makes no difference (`Literal.read?_capitals`).
-/

namespace Breadboard

theorem mapM_eq_some_iff {α β : Type} {f : α → Option β} {list : List α} {results : List β} :
    list.mapM f = some results ↔
      List.Forall₂ (fun item result => f item = some result) list results := by
  induction list generalizing results with
  | nil =>
    rw [List.mapM_nil, List.forall₂_nil_left_iff, eq_comm]
    exact Option.some_inj
  | cons item list ih =>
    rw [List.mapM_cons, List.forall₂_cons_left_iff]
    simp only [Option.bind_eq_bind, Option.bind_eq_some_iff, ih, Option.pure_def, Option.some_inj,
      eq_comm (b := results)]
    constructor
    · rintro ⟨first, head, rest, tail, rfl⟩
      exact ⟨first, rest, head, tail, rfl⟩
    · rintro ⟨first, rest, head, tail, rfl⟩
      exact ⟨first, head, rest, tail, rfl⟩

namespace Radix

theorem digitValue?_digitChar (radix : Radix) {digit : Nat} (small : digit < radix.base) :
    radix.digitValue? (digitChar digit) = some digit := by
  have everywhere : ∀ digit < radix.base, radix.digitValue? (digitChar digit) = some digit := by
    cases radix <;> decide +kernel
  exact everywhere digit small

theorem mapM_digitValue?_digitChar (radix : Radix) (digits : List Nat)
    (small : ∀ digit ∈ digits, digit < radix.base) :
    (digits.map digitChar).mapM radix.digitValue? = some digits := by
  rw [mapM_eq_some_iff, List.forall₂_map_left_iff, List.forall₂_same]
  intro digit member
  exact radix.digitValue?_digitChar (small digit member)

theorem digits_ne_nil (radix : Radix) {width number : Nat} (wide : 0 < width) :
    radix.digits width number ≠ [] := by
  have nonzero : ¬(width = 0 ∧ number = 0) := by omega
  rw [digits, if_neg nonzero]
  exact List.append_ne_nil_of_right_ne_nil _ (List.cons_ne_nil _ _)

/-- A numeral that was written is read as its number. -/
theorem read?_write (radix : Radix) {width number : Nat} (wide : 0 < width) :
    radix.read? (radix.write width number).toList = some number := by
  have someDigit : ¬((radix.digits width number).map digitChar).isEmpty = true := by
    rw [List.isEmpty_iff, List.map_eq_nil_iff]
    exact radix.digits_ne_nil wide
  rw [write, String.toList_ofList, read?, if_neg someDigit,
    radix.mapM_digitValue?_digitChar _ (radix.lt_base_of_mem_digits width number),
    Option.map_some, value_digits]

/-- A digit is read in either case. -/
theorem digitValue?_toUpper (radix : Radix) (character : Char) :
    radix.digitValue? character.toUpper = radix.digitValue? character := by
  have letters : ∀ offset < 26, radix.digitValue? (Char.ofNat ('A'.toNat + offset)) =
      radix.digitValue? (Char.ofNat ('a'.toNat + offset)) := by
    cases radix <;> decide
  obtain same | ⟨offset, few, small, capital⟩ := toUpper_cases character
  · rw [same]
  · rw [capital, small]
    exact letters offset few

theorem read?_capitals (radix : Radix) (digits : List Char) :
    radix.read? (capitals digits) = radix.read? digits := by
  have everyDigit : radix.digitValue? ∘ Char.toUpper = radix.digitValue? :=
    funext radix.digitValue?_toUpper
  rw [read?, read?, capitals, List.isEmpty_map, List.mapM_map, everyDigit]

end Radix

namespace Literal

/-- Without a minus sign, a literal stands for its magnitude. -/
theorem read?_eq_of_no_sign {numeral : List Char} (unsigned : numeral.head? ≠ some '-') :
    read? numeral = (magnitude? numeral).map Int.ofNat := by
  have unfolded : read? numeral = (magnitude? numeral).bind fun magnitude => some ↑magnitude := by
    rw [read?]
    · exact Option.map_id'
    · intro rest same
      exact unsigned (same ▸ rfl)
  rw [unfolded]
  cases magnitude? numeral <;> rfl

/-- Behind a minus sign, a literal stands for the negative of its magnitude. -/
theorem read?_eq_of_sign (numeral : List Char) :
    read? ('-' :: numeral) = (magnitude? numeral).map fun magnitude => -Int.ofNat magnitude := by
  rw [read?]
  cases magnitude? numeral <;> rfl

/-- A number in hexadecimal is read back behind its mark. -/
theorem read?_hex {width number : Nat} (wide : 0 < width) (small : number < magnitudeLimit) :
    read? ('0' :: 'X' :: (hex width number).toList) = some (number : Int) := by
  have digits : Radix.hexadecimal.read? (hex width number).toList = some number :=
    Radix.hexadecimal.read?_write wide
  have magnitude : magnitude? ('0' :: 'X' :: (hex width number).toList) = some number := by
    simp only [magnitude?, radixAndDigits, digits]
    exact Option.filter_some_pos (decide_eq_true small)
  rw [read?_eq_of_no_sign (by simp), magnitude]
  rfl

/-- A letter or an underscore is no decimal digit. -/
theorem digitValue?_eq_none_of_letter {first : Char} (letter : first.isAlpha ∨ first = '_') :
    Radix.decimal.digitValue? first = none := by
  have notDigit : ¬('0' ≤ first ∧ first ≤ '9') := by
    intro digit
    obtain ⟨low, high⟩ := digit
    rcases letter with letter | rfl
    · change (decide (65 ≤ first.val ∧ first.val ≤ 90) ||
        (97 ≤ first.val && first.val ≤ 122)) = true at letter
      simp only [Bool.or_eq_true, Bool.and_eq_true, decide_eq_true_eq, Char.le_def]
        at letter low high
      grind
    · exact absurd high (by decide)
  rw [Radix.digitValue?, if_neg notDigit, Option.filter_eq_none_iff]
  intro value read
  rw [decide_eq_true_eq, Radix.base, Nat.not_lt]
  split at read
  · grind
  · split at read
    · grind
    · cases read

/-- What starts with a letter or an underscore is never a number. -/
theorem read?_eq_none_of_letter {first : Char} (letter : first.isAlpha ∨ first = '_')
    (rest : List Char) : read? (first :: rest) = none := by
  have digit := digitValue?_eq_none_of_letter letter
  have unsigned : (first :: rest).head? ≠ some '-' := by
    intro sign
    cases sign
    exact absurd letter (by decide)
  have unmarked : radixAndDigits (first :: rest) = (.decimal, first :: rest) := by
    unfold radixAndDigits
    split
    case h_7 => rfl
    all_goals
      rename_i same
      rw [(List.cons.inj same).1] at letter
      exact absurd letter (by decide)
  rw [read?_eq_of_no_sign unsigned, magnitude?, unmarked]
  simp [Radix.read?, List.mapM_cons, digit]

/-- A word that could name a label is never a number. -/
theorem read?_eq_none_of_isIdentifier {word : List Char} (name : isIdentifier word) :
    read? word = none := by
  cases word with
  | nil => cases name
  | cons first rest =>
    rw [isIdentifier, Bool.and_eq_true, Bool.or_eq_true, beq_iff_eq] at name
    exact read?_eq_none_of_letter name.1 rest

theorem exists_of_capitals_eq_zero_cons {numeral digits : List Char} {mark : Char}
    (same : capitals numeral = '0' :: mark :: digits) :
    ∃ second rest, numeral = '0' :: second :: rest ∧ second.toUpper = mark := by
  obtain ⟨first, others, rfl, zero, behind⟩ := List.map_eq_cons_iff.mp same
  obtain ⟨second, rest, rfl, isMark, _⟩ := List.map_eq_cons_iff.mp behind
  rw [eq_of_toUpper_eq (by decide) zero]
  exact ⟨second, rest, rfl, isMark⟩

/-- The marks of a radix are read in either case. -/
theorem radixAndDigits_capitals (numeral : List Char) :
    radixAndDigits (capitals numeral) =
      ((radixAndDigits numeral).1, capitals (radixAndDigits numeral).2) := by
  fun_cases radixAndDigits numeral
  case case7 noDollar noPercent noX noCapitalX noB noCapitalB =>
    -- Capitals make no mark of what was none.
    rw [radixAndDigits.eq_def]
    split
    next digits same =>
      obtain ⟨first, rest, rfl, mark, _⟩ := List.map_eq_cons_iff.mp same
      exact (noDollar rest (by rw [eq_of_toUpper_eq (by decide) mark])).elim
    next digits same =>
      obtain ⟨first, rest, rfl, mark, _⟩ := List.map_eq_cons_iff.mp same
      exact (noPercent rest (by rw [eq_of_toUpper_eq (by decide) mark])).elim
    next digits same =>
      obtain ⟨second, rest, rfl, mark⟩ := exists_of_capitals_eq_zero_cons same
      exact (noX rest (by rw [eq_of_toUpper_eq (by decide) mark])).elim
    next digits same =>
      obtain ⟨second, rest, rfl, mark⟩ := exists_of_capitals_eq_zero_cons same
      have either : second = 'X' ∨ second = 'x' := eq_or_eq_of_toUpper_eq (by decide) mark
      obtain rfl | rfl := either
      · exact (noCapitalX rest rfl).elim
      · exact (noX rest rfl).elim
    next digits same =>
      obtain ⟨second, rest, rfl, mark⟩ := exists_of_capitals_eq_zero_cons same
      exact (noB rest (by rw [eq_of_toUpper_eq (by decide) mark])).elim
    next digits same =>
      obtain ⟨second, rest, rfl, mark⟩ := exists_of_capitals_eq_zero_cons same
      have either : second = 'B' ∨ second = 'b' := eq_or_eq_of_toUpper_eq (by decide) mark
      obtain rfl | rfl := either
      · exact (noCapitalB rest rfl).elim
      · exact (noB rest rfl).elim
    next => rfl
  all_goals rfl

theorem magnitude?_capitals (numeral : List Char) :
    magnitude? (capitals numeral) = magnitude? numeral := by
  rw [magnitude?, magnitude?, radixAndDigits_capitals]
  dsimp only
  rw [Radix.read?_capitals]

theorem read?_capitals (numeral : List Char) : read? (capitals numeral) = read? numeral := by
  cases numeral with
  | nil => rfl
  | cons first rest =>
    by_cases sign : first = '-'
    · rw [sign]
      have same : capitals ('-' :: rest) = '-' :: capitals rest := rfl
      rw [same, read?_eq_of_sign, read?_eq_of_sign, magnitude?_capitals]
    · have unsigned : (first :: rest).head? ≠ some '-' := by simpa using sign
      have unsignedToo : (capitals (first :: rest)).head? ≠ some '-' := by
        intro same
        exact sign (eq_of_toUpper_eq (by decide) (Option.some.inj same))
      rw [read?_eq_of_no_sign unsigned, read?_eq_of_no_sign unsignedToo, magnitude?_capitals]

end Literal

end Breadboard
