import Breadboard.Assembly.Symbols
import Mathlib.Data.List.Nodup

/-!
# The table of labels

A table in which no name stands twice is a finite map: looking a name up finds whatever
stands at it, and a declaration is accepted exactly if the table has no such name yet. One
that is refused leaves the table as it is (`Symbols.insert_of_declared`).
-/

namespace Breadboard

/-- If no key occurs twice, then looking a key up finds whatever stands at it. -/
theorem lookup_eq_some_iff_mem {entries : List (String × Nat)}
    (distinct : (entries.map Prod.fst).Nodup) (key : String) (value : Nat) :
    entries.lookup key = some value ↔ (key, value) ∈ entries := by
  induction entries with
  | nil => simp
  | cons entry entries ih =>
    obtain ⟨first, other⟩ := entry
    obtain ⟨absent, distinctRest⟩ := List.nodup_cons.mp distinct
    rw [List.lookup_cons, List.mem_cons, Prod.mk.injEq]
    by_cases same : key = first
    · subst same
      have notLater : (key, value) ∉ entries := by
        intro later
        exact absent (List.mem_map.mpr ⟨_, later, rfl⟩)
      simp [notLater, eq_comm]
    · have unequal : (key == first) = false := beq_eq_false_iff_ne.mpr same
      simp [unequal, same, ih distinctRest]

namespace Symbols

theorem get?_eq_none_iff (symbols : Symbols) (name : String) :
    symbols.get? name = none ↔ capitalized name ∉ symbols.entries.map Prod.fst := by
  rw [get?, List.lookup_eq_none_iff]
  simp only [bne_iff_ne, ne_eq, List.mem_map, not_exists, not_and]
  refine forall_congr' fun entry => forall_congr' fun _ => ?_
  exact not_congr eq_comm

/-- In an empty table no name has an address. -/
theorem get?_empty_iff (name : String) (address : Nat) :
    ({} : Symbols).get? name = some address ↔ False := by
  rw [get?, List.lookup_nil]
  simp

section

variable {symbols : Symbols} {name : String}

theorem insert_of_new (new : symbols.get? name = none) (address : Nat) :
    symbols.insert name address = (none, ⟨symbols.entries ++ [(capitalized name, address)]⟩) := by
  rw [insert, new]

/-- A name that was declared before keeps its address, and nothing else changes either. -/
theorem insert_of_declared {first : Nat} (declared : symbols.get? name = some first)
    (address : Nat) : symbols.insert name address = (some first, symbols) := by
  rw [insert, declared]

end

/-- A declaration is accepted exactly if no name stands twice after it. -/
theorem insert_eq_none_iff {symbols : Symbols} (distinct : (symbols.entries.map Prod.fst).Nodup)
    (name : String) (address : Nat) (extended : Symbols) :
    symbols.insert name address = (none, extended) ↔
      extended.entries = symbols.entries ++ [(capitalized name, address)] ∧
        (extended.entries.map Prod.fst).Nodup := by
  have absentIff := symbols.get?_eq_none_iff name
  have distinctIff : ((symbols.entries ++ [(capitalized name, address)]).map Prod.fst).Nodup ↔
      capitalized name ∉ symbols.entries.map Prod.fst := by
    rw [List.map_append, List.map_singleton, List.nodup_append]
    simp only [distinct, List.nodup_singleton, List.mem_singleton, forall_eq, true_and]
    refine ⟨fun apart member => apart _ member rfl, fun absent other member same => ?_⟩
    rw [same] at member
    exact absent member
  obtain ⟨entries⟩ := extended
  cases found : symbols.get? name with
  | some earlier =>
    rw [insert_of_declared found]
    have present : ¬capitalized name ∉ symbols.entries.map Prod.fst := by
      rw [← absentIff, found]
      exact nofun
    refine ⟨nofun, fun accepted => ?_⟩
    obtain ⟨rfl, distinctAfter⟩ := accepted
    exact absurd (distinctIff.mp distinctAfter) present
  | none =>
    rw [insert_of_new found]
    refine ⟨fun accepted => ?_, fun accepted => ?_⟩
    · cases accepted
      exact ⟨rfl, distinctIff.mpr (absentIff.mp found)⟩
    · obtain ⟨rfl, _⟩ := accepted
      rfl

end Symbols

end Breadboard
