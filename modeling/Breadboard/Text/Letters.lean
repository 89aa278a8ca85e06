/-!
# Letter case

Assembly text is written in either case. Only the letters `a` to `z` have a capital
here: no other letter is ever changed or identified with another.
-/

namespace Breadboard

/-- Only the small letters have another capital. -/
theorem toUpper_cases (c : Char) :
    c.toUpper = c ∨ ∃ offset < 26, c = Char.ofNat ('a'.toNat + offset) ∧
      c.toUpper = Char.ofNat ('A'.toNat + offset) := by
  by_cases small : 'a'.val ≤ c.val ∧ c.val ≤ 'z'.val
  · right
    have low : 'a'.toNat ≤ c.toNat := small.1
    have high : c.toNat ≤ 'z'.toNat := small.2
    have z : 'z'.toNat = 'a'.toNat + 25 := rfl
    obtain ⟨offset, place⟩ := Nat.exists_eq_add_of_le low
    have few : offset < 26 := by omega
    have letter : c = Char.ofNat ('a'.toNat + offset) := by rw [← place, Char.ofNat_toNat]
    have capital : ∀ offset < 26,
        (Char.ofNat ('a'.toNat + offset)).toUpper = Char.ofNat ('A'.toNat + offset) := by decide
    refine ⟨offset, few, letter, ?_⟩
    rw [letter]
    exact capital offset few
  · left
    unfold Char.toUpper
    rw [dif_neg small]

/-- What is no capital letter is the capital of itself only. -/
theorem eq_of_toUpper_eq {c mark : Char}
    (noLetter : ∀ offset < 26, mark ≠ Char.ofNat ('A'.toNat + offset))
    (same : c.toUpper = mark) : c = mark := by
  obtain unchanged | ⟨offset, few, _, capital⟩ := toUpper_cases c
  · rw [← unchanged, same]
  · exact absurd (same.symm.trans capital) (noLetter offset few)

/-- A capital letter is the capital of itself and of its small letter. -/
theorem eq_or_eq_of_toUpper_eq {c capital small : Char}
    (letter : ∀ offset < 26, capital = Char.ofNat ('A'.toNat + offset) →
      Char.ofNat ('a'.toNat + offset) = small)
    (same : c.toUpper = capital) : c = capital ∨ c = small := by
  obtain unchanged | ⟨offset, few, isSmall, isCapital⟩ := toUpper_cases c
  · left
    rw [← unchanged, same]
  · right
    rw [isSmall]
    exact letter offset few (same.symm.trans isCapital)

/-- A capital is its own capital. -/
theorem toUpper_toUpper (c : Char) : c.toUpper.toUpper = c.toUpper := by
  have capital : ∀ offset < 26, (Char.ofNat ('A'.toNat + offset)).toUpper =
      Char.ofNat ('A'.toNat + offset) := by decide
  obtain unchanged | ⟨offset, few, _, isCapital⟩ := toUpper_cases c
  · rw [unchanged, unchanged]
  · rw [isCapital]
    exact capital offset few

def capitals (characters : List Char) : List Char :=
  characters.map Char.toUpper

@[simp] theorem capitals_capitals (characters : List Char) :
    capitals (capitals characters) = capitals characters := by
  rw [capitals, capitals, List.map_map]
  exact List.map_congr_left fun c _ => toUpper_toUpper c

def capitalized (text : String) : String :=
  String.ofList (capitals text.toList)

@[simp] theorem toList_capitalized (text : String) :
    (capitalized text).toList = capitals text.toList := by
  simp [capitalized]

/-- Whether two texts are the same but for the case of their letters. -/
def sameLetters (left right : String) : Bool :=
  capitals left.toList == capitals right.toList

end Breadboard
