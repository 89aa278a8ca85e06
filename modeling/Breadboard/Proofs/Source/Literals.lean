import Breadboard.Proofs.Text.Numerals
import Mathlib.Data.Nat.Digits.Defs

/-!
# The grammar of literals

Which texts are numbers, and which number each of them is, is said here without reading anything:
a literal is a sign or none, the mark of a radix and digits, and it denotes the positional value of
the digits with the sign in front (`Literal.Denotes`). Reading accepts exactly these texts
(`Literal.read?_eq_some_iff_denotes`). The magnitude is bounded before the sign is applied, so that
the least number of sixty-four bits is refused and negation never leaves them.
-/

namespace Breadboard

namespace Radix

/-- A character that stands for a digit of the radix. Letters do so in either case. -/
def DigitFor (radix : Radix) (character : Char) (digit : Nat) : Prop :=
  digit < radix.base ∧
    ("0123456789ABCDEF".toList[digit]? = some character ∨
      "0123456789abcdef".toList[digit]? = some character)

/-- The characters are one or more digits, the most significant one first, and the number is
their positional value. -/
def Spells (radix : Radix) (characters : List Char) (number : Nat) : Prop :=
  ∃ digits, characters ≠ [] ∧ List.Forall₂ radix.DigitFor characters digits ∧
    number = Nat.ofDigits radix.base digits.reverse

/-- What can stand in front of the digits to say in which radix they are. -/
def marks : Radix → List String
  | binary => ["0b", "0B", "%"]
  | decimal => [""]
  | hexadecimal => ["0x", "0X", "$"]

end Radix

namespace Literal

/-- A text without a sign that writes a magnitude. -/
def WritesMagnitude (numeral : List Char) (magnitude : Nat) : Prop :=
  ∃ radix : Radix, ∃ mark ∈ radix.marks, ∃ digits, numeral = mark.toList ++ digits ∧
    radix.Spells digits magnitude ∧ magnitude ≤ 2 ^ 63 - 1

/-- **What a literal denotes.** There is one minus sign or none in front of a magnitude. -/
inductive Denotes : List Char → Int → Prop where
  | unsigned {numeral : List Char} {magnitude : Nat}
      (written : WritesMagnitude numeral magnitude) : Denotes numeral magnitude
  | signed {numeral : List Char} {magnitude : Nat}
      (written : WritesMagnitude numeral magnitude) : Denotes ('-' :: numeral) (-magnitude)

end Literal

/-- A character of a range is as far behind the first one as its code says. -/
theorem offset_of_mem_range {first last character : Char} (low : first ≤ character)
    (high : character ≤ last) :
    character.toNat - first.toNat < last.toNat - first.toNat + 1 ∧
      Char.ofNat (first.toNat + (character.toNat - first.toNat)) = character := by
  have above : first.toNat ≤ character.toNat := low
  have below : character.toNat ≤ last.toNat := high
  refine ⟨by omega, ?_⟩
  rw [Nat.add_sub_cancel' above, Char.ofNat_toNat]

namespace Radix

variable (radix : Radix)

theorem digitFor_of_digitValue? {character : Char} {digit : Nat}
    (read : radix.digitValue? character = some digit) : radix.DigitFor character digit := by
  obtain ⟨found, small⟩ := Option.filter_eq_some_iff.mp read
  refine ⟨of_decide_eq_true small, ?_⟩
  split at found
  next range =>
    have numerals : ∀ offset < 10,
        "0123456789ABCDEF".toList[offset]? = some (Char.ofNat ('0'.toNat + offset)) := by decide
    cases found
    obtain ⟨few, same⟩ := offset_of_mem_range range.1 range.2
    left
    rw [numerals _ few, same]
  next =>
    split at found
    next range =>
      have capitals : ∀ offset < 6,
          "0123456789ABCDEF".toList[offset + 10]? = some (Char.ofNat ('A'.toNat + offset)) := by
        decide
      cases found
      obtain ⟨few, same⟩ := offset_of_mem_range range.1 range.2
      left
      rw [capitals _ few, same]
    next =>
      split at found
      next range =>
        have letters : ∀ offset < 6,
            "0123456789abcdef".toList[offset + 10]? = some (Char.ofNat ('a'.toNat + offset)) := by
          decide
        cases found
        obtain ⟨few, same⟩ := offset_of_mem_range range.1 range.2
        right
        rw [letters _ few, same]
      next => cases found

theorem digitValue?_eq_some_iff (character : Char) (digit : Nat) :
    radix.digitValue? character = some digit ↔ radix.DigitFor character digit := by
  constructor
  · exact radix.digitFor_of_digitValue?
  · rintro ⟨small, shown⟩
    have everywhere : ∀ digit < radix.base,
        "0123456789ABCDEF".toList[digit]?.map radix.digitValue? = some (some digit) ∧
          "0123456789abcdef".toList[digit]?.map radix.digitValue? = some (some digit) := by
      cases radix <;> decide
    obtain ⟨capital, letter⟩ := everywhere digit small
    rcases shown with shown | shown
    · rw [shown] at capital
      exact Option.some.inj capital
    · rw [shown] at letter
      exact Option.some.inj letter

/-- Adding up from the left gives the positional value. -/
theorem value_eq_ofDigits (digits : List Nat) :
    radix.value digits = Nat.ofDigits radix.base digits.reverse := by
  rw [Nat.ofDigits_eq_foldr, List.foldr_reverse, value]
  congr 1
  funext sum digit
  rw [Nat.mul_comm, Nat.add_comm, Nat.cast_id]

/-- **A numeral is read exactly if it spells a number**, and then as this number. -/
theorem read?_eq_some_iff (characters : List Char) (number : Nat) :
    radix.read? characters = some number ↔ radix.Spells characters number := by
  have digitwise : (fun character digit => radix.digitValue? character = some digit) =
      radix.DigitFor := by
    funext character digit
    exact propext (radix.digitValue?_eq_some_iff character digit)
  unfold read? Spells
  by_cases nothing : characters = []
  · rw [nothing, List.isEmpty_nil, if_pos rfl]
    exact ⟨nofun, fun spelled => absurd rfl spelled.choose_spec.1⟩
  · rw [List.isEmpty_eq_false_iff.mpr nothing, if_neg Bool.false_ne_true, Option.map_eq_some_iff]
    constructor
    · rintro ⟨digits, read, rfl⟩
      rw [mapM_eq_some_iff, digitwise] at read
      exact ⟨digits, nothing, read, radix.value_eq_ofDigits digits⟩
    · rintro ⟨digits, _, spelled, rfl⟩
      rw [← digitwise, ← mapM_eq_some_iff] at spelled
      exact ⟨digits, spelled, radix.value_eq_ofDigits digits⟩

section

variable {radix} {characters : List Char} {number : Nat} (spelled : radix.Spells characters number)

include spelled

theorem isSome_digitValue?_of_spells : ∀ character ∈ characters,
    (radix.digitValue? character).isSome := by
  obtain ⟨digits, -, shown, -⟩ := spelled
  induction shown with
  | nil => nofun
  | cons first _ ih =>
    rw [List.forall_mem_cons]
    refine ⟨?_, ih⟩
    rw [(radix.digitValue?_eq_some_iff _ _).mpr first]
    rfl

/-- A mark announces its own radix, and digits without a mark are decimal. -/
theorem radixAndDigits_append {mark : String} (marked : mark ∈ radix.marks) :
    Literal.radixAndDigits (mark.toList ++ characters) = (radix, characters) := by
  have everyDigit := isSome_digitValue?_of_spells spelled
  cases radix with
  | binary | hexadecimal =>
    simp only [marks, List.mem_cons, List.not_mem_nil, or_false] at marked
    rcases marked with rfl | rfl | rfl <;> rfl
  | decimal =>
    cases List.mem_singleton.mp marked
    change Literal.radixAndDigits characters = _
    -- No decimal digit is part of a mark, but for the zero in front.
    unfold Literal.radixAndDigits
    split
    case h_7 => rfl
    case h_1 | h_2 => exact absurd (everyDigit _ List.mem_cons_self) (by decide)
    all_goals
      exact absurd (everyDigit _ (List.mem_cons_of_mem _ List.mem_cons_self)) (by decide)

end

end Radix

namespace Literal

theorem exists_mark_radixAndDigits (numeral : List Char) :
    ∃ mark ∈ (radixAndDigits numeral).1.marks,
      numeral = mark.toList ++ (radixAndDigits numeral).2 := by
  fun_cases radixAndDigits numeral with
  | case1 => exact ⟨"$", by simp [Radix.marks], rfl⟩
  | case2 => exact ⟨"%", by simp [Radix.marks], rfl⟩
  | case3 => exact ⟨"0x", by simp [Radix.marks], rfl⟩
  | case4 => exact ⟨"0X", by simp [Radix.marks], rfl⟩
  | case5 => exact ⟨"0b", by simp [Radix.marks], rfl⟩
  | case6 => exact ⟨"0B", by simp [Radix.marks], rfl⟩
  | case7 => exact ⟨"", by simp [Radix.marks], rfl⟩

theorem magnitude?_eq_some_iff (numeral : List Char) (magnitude : Nat) :
    magnitude? numeral = some magnitude ↔ WritesMagnitude numeral magnitude := by
  have bound : magnitude < magnitudeLimit ↔ magnitude ≤ 2 ^ 63 - 1 := Nat.lt_iff_le_pred (by decide)
  unfold magnitude?
  constructor
  · intro read
    obtain ⟨found, small⟩ := Option.filter_eq_some_iff.mp read
    obtain ⟨mark, marked, split⟩ := exists_mark_radixAndDigits numeral
    exact ⟨_, mark, marked, _, split, (Radix.read?_eq_some_iff _ _ _).mp found,
      bound.mp (of_decide_eq_true small)⟩
  · rintro ⟨radix, mark, marked, digits, rfl, spelled, small⟩
    rw [Radix.radixAndDigits_append spelled marked]
    exact Option.filter_eq_some_iff.mpr
      ⟨(radix.read?_eq_some_iff _ _).mpr spelled, decide_eq_true (bound.mpr small)⟩

/-- A magnitude has no sign. -/
theorem WritesMagnitude.head?_ne {numeral : List Char} {magnitude : Nat}
    (written : WritesMagnitude numeral magnitude) : numeral.head? ≠ some '-' := by
  intro sign
  obtain ⟨rest, rfl⟩ := List.head?_eq_some_iff.mp sign
  obtain ⟨radix, mark, marked, digits, split, spelled, _⟩ := written
  have reading := Radix.radixAndDigits_append spelled marked
  rw [← split] at reading
  have unmarked : radixAndDigits ('-' :: rest) = (.decimal, '-' :: rest) := rfl
  obtain ⟨rfl, rfl⟩ := Prod.mk.inj (unmarked.symm.trans reading)
  exact absurd (Radix.isSome_digitValue?_of_spells spelled _ List.mem_cons_self) (by decide)

/-- **A text is read as a number exactly if it denotes one.** -/
theorem read?_eq_some_iff_denotes (text : List Char) (value : Int) :
    read? text = some value ↔ Denotes text value := by
  constructor
  · intro read
    by_cases sign : text.head? = some '-'
    · obtain ⟨numeral, rfl⟩ := List.head?_eq_some_iff.mp sign
      rw [read?_eq_of_sign] at read
      obtain ⟨magnitude, found, rfl⟩ := Option.map_eq_some_iff.mp read
      exact .signed ((magnitude?_eq_some_iff _ _).mp found)
    · rw [read?_eq_of_no_sign sign] at read
      obtain ⟨magnitude, found, rfl⟩ := Option.map_eq_some_iff.mp read
      exact .unsigned ((magnitude?_eq_some_iff _ _).mp found)
  · intro denotes
    cases denotes with
    | unsigned written =>
      rw [read?_eq_of_no_sign written.head?_ne, (magnitude?_eq_some_iff _ _).mpr written]
      rfl
    | signed written =>
      rw [read?_eq_of_sign, (magnitude?_eq_some_iff _ _).mpr written]
      rfl

/-- Sixty-four bits hold whatever a literal denotes, and the negative of it. -/
theorem Denotes.bounds {text : List Char} {value : Int} (denotes : Denotes text value) :
    -2 ^ 63 < value ∧ value < 2 ^ 63 := by
  cases denotes with
  | unsigned written | signed written =>
    obtain ⟨_, _, _, _, _, _, small⟩ := written
    omega

end Literal

/-- **Literals are read by their grammar and nothing else is.** A text is a number exactly if it
has one minus sign or none, then the mark of a radix, and then one or more digits of this radix
whose positional value takes no more than sixty-three bits; it is read as this value with the sign.
So nothing that starts with a letter or an underscore is a number, texts that differ in the case of
letters only are read alike, and with sixty-four bits neither the number nor its negation
overflows. -/
theorem literals_read_by_grammar :
    (∀ (text : String) (value : Int),
      Literal.read? text.toList = some value ↔ Literal.Denotes text.toList value) ∧
    (∀ (text : String), (∃ first ∈ text.toList.head?, first.isAlpha ∨ first = '_') →
      Literal.read? text.toList = none) ∧
    (∀ left right : String, sameLetters left right →
      Literal.read? left.toList = Literal.read? right.toList) ∧
    ∀ (text : String) (value : Int), Literal.read? text.toList = some value →
      (Int64.ofInt value).toInt = value ∧ (-Int64.ofInt value).toInt = -value := by
  refine ⟨fun text => Literal.read?_eq_some_iff_denotes text.toList, ?_, ?_, ?_⟩
  · rintro text ⟨first, here, letter⟩
    obtain ⟨rest, split⟩ := List.head?_eq_some_iff.mp here
    rw [split]
    exact Literal.read?_eq_none_of_letter letter rest
  · intro left right same
    rw [← Literal.read?_capitals left.toList, eq_of_beq same, Literal.read?_capitals]
  · intro text value read
    obtain ⟨low, high⟩ := ((Literal.read?_eq_some_iff_denotes _ _).mp read).bounds
    rw [Int64.neg_ofInt]
    exact ⟨Int64.toInt_ofInt_of_le (by omega) (by omega),
      Int64.toInt_ofInt_of_le (by omega) (by omega)⟩

theorem literals_read_by_grammar_of_least :
    Literal.Denotes "-$7fffFFFFffffFFFF".toList (-9223372036854775807) ∧
      Literal.read? "-9223372036854775808".toList = none ∧
      Literal.read? "FF".toList = none ∧
      Literal.read? "0XaF".toList = Literal.read? "0xAf".toList ∧
      (-Int64.ofInt (-9223372036854775807)).toInt = 9223372036854775807 := by
  obtain ⟨grammar, letters, anyCase, bounds⟩ := literals_read_by_grammar
  have least : Literal.read? "-$7fffFFFFffffFFFF".toList = some (-9223372036854775807) := by decide
  exact ⟨(grammar _ _).mp least, by decide, letters "FF" ⟨'F', by decide, by decide⟩,
    anyCase "0XaF" "0xAf" (by decide), (bounds _ _ least).2⟩

end Breadboard
