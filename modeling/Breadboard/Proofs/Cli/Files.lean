import Breadboard.Cli.Disk
import Breadboard.Proofs.Assembly.Meaning

/-!
# Paths and the files that they lead to

Different paths may lead to one file, so what reading and writing do is said by the files. A
path leads to a file if it ends in a name in a directory that can be entered, and this depends
on the directories of the disk only (`Disk.LeadsTo.of_hasDirectory`). Writing makes no directory,
and changes the one file that its path leads to (`Disk.exists_leadsTo_of_write`).
-/

namespace Breadboard

/-- A name that a file can have. -/
structure IsFileName (name : String) : Prop where
  notEmpty : name ≠ ""
  notHere : name ≠ "."
  notAbove : name ≠ ".."
  short : name.utf8ByteSize ≤ nameLimit

namespace Disk

section

variable (disk : Disk) (directory : List String) (name : String)

/-- **What a name in a directory stands for**: a directory, by its position or by its name, or a
file, or nothing if it is too long. -/
theorem lookUp_cases :
    ((name = "" ∨ name = ".") ∧ disk.lookUp directory name = .ok (.directory directory)) ∨
    (name = ".." ∧ disk.lookUp directory name = .ok (.directory (parent directory))) ∨
    (nameLimit < name.utf8ByteSize ∧ disk.lookUp directory name = .error .nameTooLong) ∨
    (disk.hasDirectory (directory ++ [name]) = true ∧
      disk.lookUp directory name = .ok (.directory (directory ++ [name]))) ∨
    (IsFileName name ∧ disk.hasDirectory (directory ++ [name]) = false ∧
      disk.lookUp directory name =
        .ok (match disk.file? (directory ++ [name]) with
          | some content => .file (directory ++ [name]) content
          | none => .vacant (directory ++ [name]))) := by
  rw [lookUp]
  by_cases here : (name == "" || name == ".") = true
  · rw [if_pos here]
    exact .inl ⟨by simpa using here, rfl⟩
  rw [if_neg here]
  by_cases above : (name == "..") = true
  · rw [if_pos above]
    exact .inr (.inl ⟨by simpa using above, rfl⟩)
  rw [if_neg above]
  by_cases long : nameLimit < name.utf8ByteSize
  · rw [if_pos long]
    exact .inr (.inr (.inl ⟨long, rfl⟩))
  rw [if_neg long]
  dsimp only
  cases inside : disk.hasDirectory (directory ++ [name]) with
  | true => exact .inr (.inr (.inr (.inl ⟨rfl, rfl⟩)))
  | false =>
    simp only [Bool.or_eq_true, beq_iff_eq, not_or] at here above
    refine .inr (.inr (.inr (.inr ⟨⟨here.1, here.2, above, Nat.not_lt.mp long⟩, rfl, ?_⟩)))
    cases disk.file? (directory ++ [name]) <;> rfl

/-- A file name that names no directory leads to a file or to where one can be made. -/
theorem lookUp_of_isFileName {disk : Disk} {directory : List String} {name : String}
    (named : IsFileName name) (noDirectory : disk.hasDirectory (directory ++ [name]) = false) :
    disk.lookUp directory name =
      .ok (match disk.file? (directory ++ [name]) with
        | some content => .file (directory ++ [name]) content
        | none => .vacant (directory ++ [name])) := by
  rcases disk.lookUp_cases directory name with ⟨here | here, _⟩ | ⟨above, _⟩ | ⟨long, _⟩ |
    ⟨inside, _⟩ | ⟨_, _, found⟩
  · exact absurd here named.notEmpty
  · exact absurd here named.notHere
  · exact absurd above named.notAbove
  · exact absurd named.short (Nat.not_le.mpr long)
  · rw [noDirectory] at inside
    cases inside
  · exact found

end

section

variable {disk other : Disk}

/-- Directories are looked up alike on disks with the same directories. -/
theorem lookUp_eq_directory_of_hasDirectory
    (same : ∀ directory, disk.hasDirectory directory = other.hasDirectory directory)
    {directory inner : List String} {name : String}
    (found : disk.lookUp directory name = .ok (.directory inner)) :
    other.lookUp directory name = .ok (.directory inner) := by
  rw [lookUp] at found ⊢
  dsimp only at found ⊢
  rw [← same]
  split at found
  next here =>
    rw [if_pos here]
    exact found
  next notHere =>
    rw [if_neg notHere]
    split at found
    next above =>
      rw [if_pos above]
      exact found
    next notAbove =>
      rw [if_neg notAbove]
      split at found
      · cases found
      next short =>
        rw [if_neg short]
        split at found
        next inside =>
          rw [if_pos inside]
          exact found
        next => split at found <;> cases found

/-- Entering goes from directory to directory. -/
theorem enter_cons_eq_ok_iff {directory result : List String} {name : String}
    {rest : List String} :
    disk.enter directory (name :: rest) = .ok result ↔
      ∃ inner, disk.lookUp directory name = .ok (.directory inner) ∧
        disk.enter inner rest = .ok result := by
  rw [enter]
  constructor
  · intro entered
    split at entered
    next inner found => exact ⟨inner, found, entered⟩
    all_goals cases entered
  · intro described
    obtain ⟨inner, found, entered⟩ := described
    rw [found]
    exact entered

theorem enter_of_hasDirectory
    (same : ∀ directory, disk.hasDirectory directory = other.hasDirectory directory)
    {directory result : List String} {names : List String}
    (entered : disk.enter directory names = .ok result) :
    other.enter directory names = .ok result := by
  induction names generalizing directory with
  | nil => exact entered
  | cons name names ih =>
    obtain ⟨inner, found, rest⟩ := enter_cons_eq_ok_iff.mp entered
    exact enter_cons_eq_ok_iff.mpr
      ⟨inner, lookUp_eq_directory_of_hasDirectory same found, ih rest⟩

end

/-- A path that ends in a name of a file in a directory, whether the file is there or still has
to be made. -/
structure Leads (disk : Disk) (path : String) (directory : List String) (name : String) :
    Prop where
  route : ∃ start through, Route.ofPath path = .ok ⟨start, through, name, false⟩ ∧
    disk.enter start through = .ok directory
  named : IsFileName name
  noDirectory : disk.hasDirectory (directory ++ [name]) = false

/-- **The path leads to the file.** -/
def LeadsTo (disk : Disk) (path : String) (file : List String) : Prop :=
  ∃ directory name, disk.Leads path directory name ∧ file = directory ++ [name]

section

variable {disk : Disk}

/-- What lies around a directory is a directory. -/
theorem hasDirectory_of_isPrefix {outer inner : List String} (around : outer <+: inner)
    (inside : disk.hasDirectory inner = true) : disk.hasDirectory outer = true := by
  unfold hasDirectory at inside ⊢
  rw [Bool.or_eq_true] at inside ⊢
  rcases inside with above | below
  · left
    unfold isAbove at above ⊢
    rw [List.all_eq_true] at above ⊢
    exact fun part member => above part (around.subset member)
  · right
    rw [List.any_eq_true] at below ⊢
    obtain ⟨⟨path, content⟩, member, lies⟩ := below
    refine ⟨⟨path, content⟩, member, ?_⟩
    rw [Bool.and_eq_true, List.isPrefixOf_iff_prefix, decide_eq_true_iff] at lies ⊢
    exact ⟨around.trans lies.1, Nat.lt_of_le_of_lt around.length_le lies.2⟩

theorem hasDirectory_of_isAbove {directory : List String} (above : isAbove directory = true) :
    disk.hasDirectory directory = true := by
  rw [hasDirectory, above, Bool.true_or]

theorem hasDirectory_parent {directory : List String}
    (inside : disk.hasDirectory directory = true) :
    disk.hasDirectory (parent directory) = true := by
  rw [parent]
  split
  · exact inside
  · split
    next above =>
      apply hasDirectory_of_isAbove
      rw [isAbove, List.all_append, ← isAbove, above]
      rfl
    next =>
      refine hasDirectory_of_isPrefix ?_ inside
      exact List.dropLast_prefix directory

/-- What can be entered is a directory. -/
theorem hasDirectory_of_enter {directory result : List String} {names : List String}
    (entered : disk.enter directory names = .ok result)
    (inside : disk.hasDirectory directory = true) : disk.hasDirectory result = true := by
  induction names generalizing directory with
  | nil =>
    cases entered
    exact inside
  | cons name names ih =>
    obtain ⟨inner, found, rest⟩ := enter_cons_eq_ok_iff.mp entered
    apply ih rest
    rcases disk.lookUp_cases directory name with ⟨_, same⟩ | ⟨_, same⟩ | ⟨_, same⟩ |
      ⟨there, same⟩ | ⟨_, _, same⟩ <;> rw [same] at found
    · cases found
      exact inside
    · cases found
      exact hasDirectory_parent inside
    · cases found
    · cases found
      exact there
    · split at found <;> cases found

end

section

variable {disk other : Disk} {path : String} {directory : List String} {name : String}

theorem isAbove_start_of_ofPath {route : Route} (followed : Route.ofPath path = .ok route) :
    isAbove route.start = true := by
  have start : isAbove (if path.toList.head? = some '/' then ["/"] else []) = true := by
    split <;> rfl
  rw [Route.ofPath] at followed
  split at followed
  · cases followed
  split at followed
  · cases followed
  dsimp only at followed
  split at followed <;> cases followed <;> exact start

theorem Leads.hasDirectory (leads : disk.Leads path directory name) :
    disk.hasDirectory directory = true := by
  obtain ⟨start, through, route, entered⟩ := leads.route
  apply hasDirectory_of_enter entered
  exact hasDirectory_of_isAbove (isAbove_start_of_ofPath route)

theorem Leads.of_hasDirectory (leads : disk.Leads path directory name)
    (same : ∀ directory, disk.hasDirectory directory = other.hasDirectory directory) :
    other.Leads path directory name where
  route := by
    obtain ⟨start, through, route, entered⟩ := leads.route
    exact ⟨start, through, route, enter_of_hasDirectory same entered⟩
  named := leads.named
  noDirectory := (same _).symm.trans leads.noDirectory

/-- Where a path leads depends on the directories only. -/
theorem LeadsTo.of_hasDirectory {file : List String} (leads : disk.LeadsTo path file)
    (same : ∀ directory, disk.hasDirectory directory = other.hasDirectory directory) :
    other.LeadsTo path file := by
  obtain ⟨directory, name, ends, there⟩ := leads
  exact ⟨directory, name, ends.of_hasDirectory same, there⟩

/-- A path leads to one file at most. -/
theorem LeadsTo.unique {file another : List String} (leads : disk.LeadsTo path file)
    (again : disk.LeadsTo path another) : another = file := by
  obtain ⟨directory, name, ends, rfl⟩ := leads
  obtain ⟨inner, last, endsAgain, rfl⟩ := again
  obtain ⟨start, through, route, entered⟩ := ends.route
  obtain ⟨_, _, same, enteredAgain⟩ := endsAgain.route
  rw [route] at same
  cases same
  rw [entered] at enteredAgain
  cases enteredAgain
  rfl

/-- **A file is read from where the path leads.** -/
theorem read_eq_ok_iff {content : List UInt8} :
    disk.read path = .ok content ↔
      ∃ file, disk.LeadsTo path file ∧ disk.file? file = some content := by
  rw [read]
  constructor
  · intro found
    obtain ⟨⟨start, through, last, closed⟩, route, found⟩ := (bind_eq_ok_iff _ _ _).mp found
    obtain ⟨directory, entered, found⟩ := (bind_eq_ok_iff _ _ _).mp found
    obtain ⟨place, looked, found⟩ := (bind_eq_ok_iff _ _ _).mp found
    rcases disk.lookUp_cases directory last with ⟨_, same⟩ | ⟨_, same⟩ | ⟨_, same⟩ | ⟨_, same⟩ |
      ⟨named, noDirectory, same⟩ <;> rw [same] at looked <;> cases looked
    · cases found
    · cases found
    · cases found
    · cases present : disk.file? (directory ++ [last]) with
      | none =>
        rw [present] at found
        cases found
      | some stored =>
        rw [present] at found
        cases closed with
        | true => cases found
        | false =>
          cases found
          exact ⟨_, ⟨directory, last, ⟨⟨start, through, route, entered⟩, named, noDirectory⟩, rfl⟩,
            present⟩
  · intro described
    obtain ⟨_, ⟨directory, name, leads, rfl⟩, present⟩ := described
    obtain ⟨start, through, route, entered⟩ := leads.route
    have looked := lookUp_of_isFileName leads.named leads.noDirectory
    rw [present] at looked
    exact (bind_eq_ok_iff _ _ _).mpr ⟨_, route, (bind_eq_ok_iff _ _ _).mpr
      ⟨directory, entered, (bind_eq_ok_iff _ _ _).mpr ⟨_, looked, rfl⟩⟩⟩

/-- Two paths that lead to one file. -/
def SameFile (disk : Disk) (path another : String) : Prop :=
  ∃ file, disk.LeadsTo path file ∧ disk.LeadsTo another file

theorem LeadsTo.sameFile_iff {another : String} {file place : List String}
    (leads : disk.LeadsTo path file) (leadsAgain : disk.LeadsTo another place) :
    disk.SameFile path another ↔ file = place := by
  constructor
  · rintro ⟨shared, first, second⟩
    rw [← leads.unique first, leadsAgain.unique second]
  · rintro rfl
    exact ⟨file, leads, leadsAgain⟩

/-- Directories are told by the paths of the files. -/
theorem hasDirectory_eq (directory : List String) (disk : Disk) :
    disk.hasDirectory directory = (isAbove directory || (disk.files.map Prod.fst).any fun path =>
      directory.isPrefixOf path && decide (directory.length < path.length)) := by
  rw [Disk.hasDirectory, List.any_map]
  rfl

theorem map_fst_replace (path : List String) (content : List UInt8)
    (files : List (List String × List UInt8)) :
    (replace path content files).map Prod.fst = files.map Prod.fst := by
  induction files with
  | nil => rfl
  | cons file files ih =>
    obtain ⟨other, old⟩ := file
    rw [replace]
    split
    next same => rw [List.map_cons, List.map_cons, same]
    next => rw [List.map_cons, List.map_cons, ih]

/-- Replacing a file that is there changes this file only. -/
theorem lookup_replace {path : List String} {old : List UInt8}
    {files : List (List String × List UInt8)} (present : files.lookup path = some old)
    (content : List UInt8) (file : List String) :
    (replace path content files).lookup file =
      if file = path then some content else files.lookup file := by
  induction files with
  | nil => cases present
  | cons first files ih =>
    obtain ⟨other, stored⟩ := first
    rw [replace]
    rw [List.lookup_cons] at present
    by_cases here : other = path
    · rw [if_pos here, List.lookup_cons, List.lookup_cons, here]
      by_cases same : file = path
      · simp [same]
      · simp [same, beq_eq_false_iff_ne.mpr same]
    · have apart : (path == other) = false := beq_eq_false_iff_ne.mpr (Ne.symm here)
      rw [apart] at present
      rw [if_neg here, List.lookup_cons, List.lookup_cons, ih present]
      by_cases same : file = path
      · simp [same, apart]
      · simp [same]

/-- **A new file makes no directory**, as the one that it lies in is there. -/
theorem hasDirectory_append (inside : disk.hasDirectory directory = true) (name : String)
    (content : List UInt8) (other : List String) :
    (Disk.mk (disk.files ++ [(directory ++ [name], content)])).hasDirectory other =
      disk.hasDirectory other := by
  rw [hasDirectory_eq, hasDirectory_eq, List.map_append, List.any_append, ← Bool.or_assoc,
    ← hasDirectory_eq]
  cases new : other.isPrefixOf (directory ++ [name]) &&
    decide (other.length < (directory ++ [name]).length) with
  | false =>
    simp only [List.map_cons, List.map_nil, List.any_cons, List.any_nil, new, Bool.or_false]
  | true =>
    rw [Bool.and_eq_true, List.isPrefixOf_iff_prefix, decide_eq_true_iff] at new
    have around : other <+: directory := by
      rcases List.prefix_concat_iff.mp new.1 with whole | around
      · rw [whole] at new
        exact absurd new.2 (Nat.lt_irrefl _)
      · exact around
    rw [hasDirectory_of_isPrefix around inside, Bool.true_or]

/-- **What a write does.** It goes to where the path leads, makes no directory and changes no
other file. -/
theorem exists_leadsTo_of_write {content : List UInt8} {written : Disk}
    (done : disk.write path content = .ok written) :
    ∃ file, disk.LeadsTo path file ∧
      (∀ directory, disk.hasDirectory directory = written.hasDirectory directory) ∧
      ∀ other, written.file? other = if other = file then some content else disk.file? other := by
  rw [write] at done
  obtain ⟨⟨start, through, last, closed⟩, route, done⟩ := (bind_eq_ok_iff _ _ _).mp done
  obtain ⟨directory, entered, done⟩ := (bind_eq_ok_iff _ _ _).mp done
  cases closed with
  | true => cases done
  | false =>
    dsimp only at done
    rw [if_neg Bool.false_ne_true] at done
    obtain ⟨place, looked, done⟩ := (bind_eq_ok_iff _ _ _).mp done
    rcases disk.lookUp_cases directory last with ⟨_, same⟩ | ⟨_, same⟩ | ⟨_, same⟩ | ⟨_, same⟩ |
      ⟨named, noDirectory, same⟩ <;> rw [same] at looked <;> cases looked
    · cases done
    · cases done
    · cases done
    · have leads : disk.Leads path directory last :=
        ⟨⟨start, through, route, entered⟩, named, noDirectory⟩
      refine ⟨directory ++ [last], ⟨directory, last, leads, rfl⟩, ?_⟩
      cases present : disk.file? (directory ++ [last]) with
      | some stored =>
        rw [present] at done
        cases done
        refine ⟨fun inner => ?_, lookup_replace present content⟩
        rw [hasDirectory_eq, hasDirectory_eq, map_fst_replace]
      | none =>
        rw [present] at done
        cases done
        refine ⟨fun inner => (hasDirectory_append leads.hasDirectory last content inner).symm,
          fun other => ?_⟩
        rw [file?, List.lookup_append]
        by_cases same : other = directory ++ [last]
        · subst same
          rw [if_pos rfl, ← file?, present, Option.none_or, List.lookup_cons_self]
        · rw [if_neg same, List.lookup_cons, beq_eq_false_iff_ne.mpr same]
          exact Option.or_none

/-- What was written is read back. -/
theorem read_of_write {content : List UInt8} {written : Disk}
    (done : disk.write path content = .ok written) : written.read path = .ok content := by
  obtain ⟨file, leads, same, files⟩ := exists_leadsTo_of_write done
  rw [read_eq_ok_iff]
  refine ⟨file, leads.of_hasDirectory same, ?_⟩
  rw [files, if_pos rfl]

end

end Disk

end Breadboard
