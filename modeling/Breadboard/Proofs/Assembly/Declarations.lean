import Breadboard.Proofs.Assembly.Table
import Breadboard.Proofs.Isa.Names
import Mathlib.Data.Finset.Card
import Mathlib.Data.List.Forall2

/-!
# Declaring labels one after the other

A label has one name in many spellings, which differ in the case of the letters `a` to `z` only
(`SameName`). Of all declarations of a name the first one stands: it enters the table behind those
that are there, and every later one is answered with its address and changes nothing. So the table
behind any series of declarations is read off the series itself (`first_declaration_stands`).
-/

namespace Breadboard

/-- A character and itself, or a letter from `a` to `z` in both cases. -/
inductive SameLetter : Char → Char → Prop where
  | refl (character : Char) : SameLetter character character
  | raised {offset : Nat} (few : offset < 26) :
    SameLetter (Char.ofNat ('a'.toNat + offset)) (Char.ofNat ('A'.toNat + offset))
  | lowered {offset : Nat} (few : offset < 26) :
    SameLetter (Char.ofNat ('A'.toNat + offset)) (Char.ofNat ('a'.toNat + offset))

/-- Two spellings of one name. -/
def SameName (left right : String) : Prop :=
  List.Forall₂ SameLetter left.toList right.toList

/-- None of the letters `a` to `z` is small. -/
def InCapitals (text : String) : Prop :=
  ∀ character ∈ text.toList, ∀ offset < 26, character ≠ Char.ofNat ('a'.toNat + offset)

theorem sameLetter_iff (left right : Char) :
    SameLetter left right ↔ left.toUpper = right.toUpper := by
  have both : ∀ offset < 26, (Char.ofNat ('a'.toNat + offset)).toUpper =
      (Char.ofNat ('A'.toNat + offset)).toUpper := by decide
  have distinct : ∀ first < 26, ∀ second < 26,
      Char.ofNat ('A'.toNat + first) = Char.ofNat ('A'.toNat + second) → first = second := by
    decide
  constructor
  · rintro (_ | few | few)
    · rfl
    · exact both _ few
    · exact (both _ few).symm
  · intro same
    obtain kept | ⟨first, few, isSmall, isCapital⟩ := toUpper_cases left
    all_goals
      obtain keptRight | ⟨second, fewRight, isSmallRight, isCapitalRight⟩ := toUpper_cases right
    · rw [kept, keptRight] at same
      rw [same]
      exact .refl right
    · rw [kept, isCapitalRight] at same
      rw [same, isSmallRight]
      exact .lowered fewRight
    · rw [keptRight, isCapital] at same
      rw [← same, isSmall]
      exact .raised few
    · rw [isCapital, isCapitalRight] at same
      rw [isSmall, isSmallRight, distinct first few second fewRight same]
      exact .refl _

/-- Two texts are spellings of one name if they have the same capitals. -/
theorem sameName_iff (left right : String) :
    SameName left right ↔ capitalized left = capitalized right := by
  have letters : SameLetter = fun left right => left.toUpper = right.toUpper :=
    funext₂ fun left right => propext (sameLetter_iff left right)
  rw [SameName, letters, capitalized, capitalized, String.ofList_inj, capitals, capitals,
    ← List.forall₂_eq_eq_eq, List.forall₂_map_left_iff, List.forall₂_map_right_iff]

theorem inCapitals_iff (text : String) : InCapitals text ↔ capitalized text = text := by
  have raises : ∀ offset < 26, (Char.ofNat ('a'.toNat + offset)).toUpper ≠
      Char.ofNat ('a'.toNat + offset) := by decide
  have pointwise : text.toList.map Char.toUpper = text.toList ↔
      ∀ character ∈ text.toList, character.toUpper = character := by
    simpa only [List.map_id, id] using
      List.map_inj_left (f := Char.toUpper) (g := id) (l := text.toList)
  rw [← String.toList_inj, toList_capitalized, capitals, pointwise]
  refine forall₂_congr fun character _ => ?_
  constructor
  · intro noSmall
    obtain kept | ⟨offset, few, isSmall, _⟩ := toUpper_cases character
    · exact kept
    · exact absurd isSmall (noSmall offset few)
  · rintro kept offset few rfl
    exact raises offset few kept

/-- **The capitals of a text** are the spelling of it that has no small letter. -/
theorem capitalized_eq_iff (text key : String) :
    capitalized text = key ↔ SameName text key ∧ InCapitals key := by
  rw [sameName_iff, inCapitals_iff]
  constructor
  · rintro rfl
    rw [capitalized_capitalized]
    exact ⟨rfl, rfl⟩
  · rintro ⟨same, kept⟩
    rw [same, kept]

/-- The first declaration of a name, in whatever spelling, gives it an address. -/
def FirstDeclared (declarations : List (String × Nat)) (name : String) (address : Nat) : Prop :=
  ∃ before spelled after, declarations = before ++ (spelled, address) :: after ∧
    SameName spelled name ∧ ∀ earlier ∈ before, ¬SameName earlier.1 name

/-- The names in capitals, with the addresses, of those declarations whose name was not declared
before. -/
def newDeclarations (declarations : List (String × Nat)) : List (String × Nat) :=
  declarations.zipIdx.filterMap fun ((name, address), index) =>
    if capitalized name ∈ (declarations.take index).map (capitalized ·.1) then none
    else some (capitalized name, address)

theorem newDeclarations_concat (declarations : List (String × Nat)) (name : String)
    (address : Nat) :
    newDeclarations (declarations ++ [(name, address)]) =
      newDeclarations declarations ++
        if capitalized name ∈ declarations.map (capitalized ·.1) then []
        else [(capitalized name, address)] := by
  rw [newDeclarations, List.zipIdx_append, List.filterMap_append, newDeclarations]
  congr 1
  · apply List.filterMap_congr
    rintro ⟨⟨other, place⟩, index⟩ member
    have inside : index ≤ declarations.length := by
      have := (List.mem_zipIdx member).2.1
      omega
    dsimp only
    rw [List.take_append_of_le_length inside]
  · rw [Nat.zero_add, List.zipIdx_singleton, List.filterMap_cons, List.filterMap_nil]
    dsimp only
    rw [List.take_left]
    by_cases declared : capitalized name ∈ declarations.map (capitalized ·.1)
    · rw [if_pos declared, if_pos declared]
    · rw [if_neg declared, if_neg declared]

namespace Symbols

/-- The table behind a declaration. -/
def declare (symbols : Symbols) (declaration : String × Nat) : Symbols :=
  (symbols.insert declaration.1 declaration.2).2

/-- The table behind a series of declarations. -/
def ofDeclarations (declarations : List (String × Nat)) : Symbols :=
  declarations.foldl declare {}

/-- The names in the table. -/
def names (symbols : Symbols) : List String := symbols.entries.map Prod.fst

theorem ofDeclarations_concat (declarations : List (String × Nat)) (declaration : String × Nat) :
    ofDeclarations (declarations ++ [declaration]) =
      (ofDeclarations declarations).declare declaration := by
  rw [ofDeclarations, List.foldl_append, List.foldl_cons, List.foldl_nil, ofDeclarations]

section

variable {symbols : Symbols} {name : String}

theorem declare_of_new (new : symbols.get? name = none) (address : Nat) :
    symbols.declare (name, address) = ⟨symbols.entries ++ [(capitalized name, address)]⟩ := by
  rw [declare, insert_of_new new]

theorem declare_of_declared {first : Nat} (declared : symbols.get? name = some first)
    (address : Nat) : symbols.declare (name, address) = symbols := by
  rw [declare, insert_of_declared declared]

end

/-- **What a declaration changes for a look-up**: it is found if nothing was found before. -/
theorem get?_declare (symbols : Symbols) (spelled : String) (address : Nat) (name : String) :
    (symbols.declare (spelled, address)).get? name =
      (symbols.get? name).or (if capitalized spelled = capitalized name then some address
        else none) := by
  cases found : symbols.get? spelled with
  | some first =>
    rw [declare_of_declared found]
    split
    next same =>
      rw [get?, ← same, ← get?, found]
      rfl
    next => exact (Option.or_none).symm
  | none =>
    rw [declare_of_new found, get?, List.lookup_append, ← get?]
    congr 1
    by_cases same : capitalized spelled = capitalized name
    · rw [if_pos same, same, List.lookup_cons_self]
    · rw [if_neg same, List.lookup_cons, beq_eq_false_iff_ne.mpr (Ne.symm same), List.lookup_nil]

/-- **A look-up finds the first declaration.** -/
theorem get?_ofDeclarations (declarations : List (String × Nat)) (name : String) :
    (ofDeclarations declarations).get? name =
      (declarations.find? fun declaration => capitalized declaration.1 = capitalized name).map
        Prod.snd := by
  induction declarations using List.reverseRecOn with
  | nil => rfl
  | append_singleton declarations declaration ih =>
    obtain ⟨spelled, address⟩ := declaration
    rw [ofDeclarations_concat, get?_declare, ih, List.find?_append, List.find?_singleton,
      Option.map_or]
    congr 1
    by_cases same : capitalized spelled = capitalized name
    · rw [if_pos same, if_pos (decide_eq_true same)]
      rfl
    · rw [if_neg same, if_neg (by simpa using same)]
      rfl

/-- An address that is found was given by the first declaration of the name. -/
theorem get?_ofDeclarations_eq_some_iff (declarations : List (String × Nat)) (name : String)
    (address : Nat) :
    (ofDeclarations declarations).get? name = some address ↔
      FirstDeclared declarations name address := by
  rw [get?_ofDeclarations, Option.map_eq_some_iff, FirstDeclared]
  simp only [List.find?_eq_some_iff_append, sameName_iff, decide_eq_true_eq, Bool.not_eq_true',
    decide_eq_false_iff_not]
  constructor
  · rintro ⟨⟨spelled, place⟩, ⟨same, before, after, split, earlier⟩, rfl⟩
    exact ⟨before, spelled, after, split, same, earlier⟩
  · rintro ⟨before, spelled, after, split, same, earlier⟩
    exact ⟨(spelled, address), ⟨same, before, after, split, earlier⟩, rfl⟩

theorem get?_ofDeclarations_eq_none_iff (declarations : List (String × Nat)) (name : String) :
    (ofDeclarations declarations).get? name = none ↔
      ∀ declaration ∈ declarations, ¬SameName declaration.1 name := by
  rw [get?_ofDeclarations, Option.map_eq_none_iff, List.find?_eq_none]
  simp only [decide_eq_true_eq, sameName_iff]

theorem mem_declared_iff (declarations : List (String × Nat)) (name : String) :
    capitalized name ∈ declarations.map (capitalized ·.1) ↔
      (ofDeclarations declarations).get? name ≠ none := by
  rw [Ne, get?_ofDeclarations_eq_none_iff, List.mem_map]
  simp only [sameName_iff, not_forall, not_not, exists_prop]

/-- **The table holds the new declarations**, in their order. -/
theorem entries_ofDeclarations (declarations : List (String × Nat)) :
    (ofDeclarations declarations).entries = newDeclarations declarations := by
  induction declarations using List.reverseRecOn with
  | nil => rfl
  | append_singleton declarations declaration ih =>
    obtain ⟨name, address⟩ := declaration
    have declaredIff := mem_declared_iff declarations name
    rw [ofDeclarations_concat, newDeclarations_concat, ← ih]
    cases found : (ofDeclarations declarations).get? name with
    | some first =>
      rw [found] at declaredIff
      rw [declare_of_declared found, if_pos (declaredIff.mpr nofun), List.append_nil]
    | none =>
      rw [found] at declaredIff
      rw [declare_of_new found, if_neg fun declared => declaredIff.mp declared rfl]

/-- No name stands twice in the table. -/
theorem nodup_names_ofDeclarations (declarations : List (String × Nat)) :
    (ofDeclarations declarations).names.Nodup := by
  induction declarations using List.reverseRecOn with
  | nil => exact List.nodup_nil
  | append_singleton declarations declaration ih =>
    obtain ⟨name, address⟩ := declaration
    rw [ofDeclarations_concat]
    cases found : (ofDeclarations declarations).get? name with
    | some first =>
      rw [declare_of_declared found]
      exact ih
    | none =>
      rw [declare_of_new found]
      exact ((insert_eq_none_iff ih name address _).mp (insert_of_new found address)).2

/-- The names in the table are the capitals of those that were declared. -/
theorem mem_names_ofDeclarations (declarations : List (String × Nat)) (key : String) :
    key ∈ (ofDeclarations declarations).names ↔ key ∈ declarations.map (capitalized ·.1) := by
  constructor
  · rw [names, entries_ofDeclarations, List.mem_map]
    rintro ⟨entry, listed, rfl⟩
    obtain ⟨⟨⟨name, address⟩, index⟩, member, kept⟩ := List.mem_filterMap.mp listed
    dsimp only at kept
    split at kept
    next => cases kept
    next =>
      cases kept
      exact List.mem_map_of_mem (List.fst_mem_of_mem_zipIdx member)
  · intro declared
    obtain ⟨⟨name, address⟩, _, rfl⟩ := List.mem_map.mp declared
    by_contra absent
    exact (mem_declared_iff declarations name).mp declared ((get?_eq_none_iff _ name).mpr absent)

/-- There are as many names in the table as were declared, spellings of one name counted once. -/
theorem size_ofDeclarations (declarations : List (String × Nat)) :
    (ofDeclarations declarations).size =
      (declarations.map (capitalized ·.1)).toFinset.card := by
  have sameNames : (declarations.map (capitalized ·.1)).toFinset =
      (ofDeclarations declarations).names.toFinset := by
    ext key
    rw [List.mem_toFinset, List.mem_toFinset, mem_names_ofDeclarations]
  rw [sameNames, List.toFinset_card_of_nodup (nodup_names_ofDeclarations declarations), names,
    List.length_map, size]

end Symbols

/-- **The first declaration of a name stands.** The table behind a series of declarations holds
those of a name that was not declared before, in their order, with the name in capitals. Each of
these is accepted when it comes, and any other is answered with the address of the first
declaration of its name, and leaves the table as it is. The same address is found under every
spelling of the name, and none under a name that was not declared. No name stands in the table
twice. Spellings of a name differ in the case of the letters `a` to `z` and in nothing else. -/
theorem first_declaration_stands (declarations : List (String × Nat)) :
    (Symbols.ofDeclarations declarations).entries = newDeclarations declarations ∧
    (∀ before name address after, declarations = before ++ (name, address) :: after →
      let present := Symbols.ofDeclarations before
      let next := Symbols.ofDeclarations (before ++ [(name, address)])
      ((∀ earlier ∈ before, ¬SameName earlier.1 name) →
        present.insert name address = (none, next) ∧
          next.entries = present.entries ++ [(capitalized name, address)]) ∧
      ∀ first, FirstDeclared before name first →
        present.insert name address = (some first, present) ∧ next = present) ∧
    let table := Symbols.ofDeclarations declarations
    (∀ name,
      (∀ address, table.get? name = some address ↔ FirstDeclared declarations name address) ∧
      (table.get? name = none ↔ ∀ declaration ∈ declarations, ¬SameName declaration.1 name)) ∧
    table.names.Nodup ∧ (∀ key ∈ table.names, InCapitals key) ∧
    table.size = table.names.length ∧
    table.size = (declarations.map (capitalized ·.1)).toFinset.card ∧
    ∀ text key, capitalized text = key ↔ SameName text key ∧ InCapitals key := by
  refine ⟨Symbols.entries_ofDeclarations declarations, ?_, ?_,
    Symbols.nodup_names_ofDeclarations declarations, ?_, (List.length_map _).symm,
    Symbols.size_ofDeclarations declarations, capitalized_eq_iff⟩
  · intro before name address after _ present next
    have behind : next = present.declare (name, address) :=
      Symbols.ofDeclarations_concat before (name, address)
    constructor
    · intro new
      have notFound := (Symbols.get?_ofDeclarations_eq_none_iff before name).mpr new
      rw [behind, Symbols.declare_of_new notFound]
      exact ⟨Symbols.insert_of_new notFound address, rfl⟩
    · intro first declared
      have found := (Symbols.get?_ofDeclarations_eq_some_iff before name first).mpr declared
      rw [behind, Symbols.declare_of_declared found]
      exact ⟨Symbols.insert_of_declared found address, rfl⟩
  · exact fun name => ⟨Symbols.get?_ofDeclarations_eq_some_iff declarations name,
      Symbols.get?_ofDeclarations_eq_none_iff declarations name⟩
  · intro key listed
    obtain ⟨declaration, _, rfl⟩ :=
      List.mem_map.mp ((Symbols.mem_names_ofDeclarations declarations key).mp listed)
    exact ((capitalized_eq_iff declaration.1 _).mp rfl).2

/-- Three spellings of one name, and two names that differ in a letter which is not folded. -/
theorem first_declaration_stands_of_respelled_names :
    let declarations := [("loop", 4), ("Éa", 1), ("LOOP", 9), ("éA", 2)]
    let table := Symbols.ofDeclarations declarations
    (table.entries = [("LOOP", 4), ("ÉA", 1), ("éA", 2)] ∧ table.size = 3 ∧
      table.get? "Loop" = some 4 ∧ table.get? "ÉA" = some 1 ∧ table.get? "lop" = none) ∧
    (FirstDeclared [("loop", 4), ("Éa", 1)] "LOOP" 4 ∧
      (Symbols.ofDeclarations [("loop", 4), ("Éa", 1)]).insert "LOOP" 9 =
        (some 4, Symbols.ofDeclarations [("loop", 4), ("Éa", 1)])) ∧
    (∀ earlier ∈ declarations.take 3, ¬SameName earlier.1 "éA") ∧
    (Symbols.ofDeclarations (declarations.take 3)).insert "éA" 2 = (none, table) := by
  intro declarations table
  obtain ⟨entries, inserts, lookups, _, _, _, number, _⟩ := first_declaration_stands declarations
  have first : FirstDeclared [("loop", 4), ("Éa", 1)] "LOOP" 4 :=
    ⟨[], "loop", [("Éa", 1)], rfl, (sameName_iff _ _).mpr (by decide +kernel), nofun⟩
  have new : ∀ earlier ∈ declarations.take 3, ¬SameName earlier.1 "éA" := by
    simp only [sameName_iff]
    decide +kernel
  obtain ⟨_, refused⟩ := inserts [("loop", 4), ("Éa", 1)] "LOOP" 9 [("éA", 2)] rfl
  obtain ⟨accepted, _⟩ := inserts (declarations.take 3) "éA" 2 [] rfl
  refine ⟨⟨entries.trans (by decide +kernel), number.trans (by decide +kernel), ?_, ?_, ?_⟩,
    ⟨first, (refused 4 first).1⟩, new, (accepted new).1⟩
  · exact ((lookups "Loop").1 4).mpr
      ⟨[], "loop", _, rfl, (sameName_iff _ _).mpr (by decide +kernel), nofun⟩
  · refine ((lookups "ÉA").1 1).mpr
      ⟨[("loop", 4)], "Éa", _, rfl, (sameName_iff _ _).mpr (by decide +kernel), ?_⟩
    simp only [sameName_iff]
    decide +kernel
  · apply (lookups "lop").2.mpr
    simp only [sameName_iff]
    decide +kernel

end Breadboard
