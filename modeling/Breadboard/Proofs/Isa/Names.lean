import Breadboard.Isa.Mnemonic

/-!
# Names of mnemonics and registers

A name is looked up in either case, and no two mnemonics and no two registers share a
name. A text therefore names at most one of them, the one whose name in capitals it is.
-/

namespace Breadboard

theorem sameLetters_iff (left right : String) :
    sameLetters left right ↔ capitalized left = capitalized right := by
  rw [sameLetters, beq_iff_eq, capitalized, capitalized, String.ofList_inj]

@[simp] theorem capitalized_capitalized (text : String) :
    capitalized (capitalized text) = capitalized text := by
  rw [capitalized, toList_capitalized, capitals_capitals, capitalized]

/-- A search by name finds exactly the item that has the name, if no two items share
one. -/
theorem find?_sameLetters_eq_some_iff {α : Type} {items : List α} {name : α → String}
    (listed : ∀ item, item ∈ items)
    (distinct : ∀ first second, capitalized (name first) = capitalized (name second) →
      first = second)
    (text : String) (item : α) :
    items.find? (fun other => sameLetters (name other) text) = some item ↔
      capitalized text = capitalized (name item) := by
  constructor
  · intro found
    have same := List.find?_some found
    exact ((sameLetters_iff _ _).mp same).symm
  · intro same
    have present : (items.find? fun other => sameLetters (name other) text).isSome := by
      rw [List.find?_isSome]
      exact ⟨item, listed item, (sameLetters_iff _ _).mpr same.symm⟩
    obtain ⟨other, found⟩ := Option.isSome_iff_exists.mp present
    have otherSame := List.find?_some found
    rw [found, distinct other item (((sameLetters_iff _ _).mp otherSame).trans same)]

namespace Mnemonic

theorem text_injective (first second : Mnemonic) (same : first.text = second.text) :
    first = second := by
  have everywhere : ∀ first ∈ all, ∀ second ∈ all, first.text = second.text → first = second := by
    decide +kernel
  exact everywhere first first.mem_all second second.mem_all same

/-- A text names the mnemonic whose name in capitals are its own capitals. -/
theorem ofText?_eq_some_iff (text : String) (mnemonic : Mnemonic) :
    ofText? text = some mnemonic ↔ capitalized text = mnemonic.text :=
  find?_sameLetters_eq_some_iff mem_all text_injective text mnemonic

theorem capitalized_text (mnemonic : Mnemonic) : capitalized mnemonic.text = mnemonic.text :=
  capitalized_capitalized mnemonic.name

end Mnemonic

namespace Register

theorem capitalized_text (register : Register) : capitalized register.text = register.text := by
  cases register <;> decide +kernel

/-- A text names the register whose name are its own capitals. -/
theorem ofText?_eq_some_iff (text : String) (register : Register) :
    ofText? text = some register ↔ capitalized text = register.text := by
  have distinct (first second : Register)
      (same : capitalized first.text = capitalized second.text) : first = second := by
    rw [capitalized_text, capitalized_text] at same
    cases first <;> cases second <;> first | rfl | exact absurd same (by decide)
  have found := find?_sameLetters_eq_some_iff mem_all distinct text register
  rw [capitalized_text] at found
  exact found

end Register

end Breadboard
