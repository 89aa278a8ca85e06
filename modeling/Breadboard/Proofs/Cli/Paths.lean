import Breadboard.Cli.Path
import Breadboard.Proofs.Cli.Files

/-!
# Names with other extensions

A path that leads to a file is a folder, which may be empty, and a name behind it, and the
folder alone says in which directory the file is. Replacing the extension keeps the folder and
what stands in front of the last point (`withExtension_eq`). So a path and the same path with
another extension lead to files in one directory, and to one file exactly if the extension was
that one before (`Disk.LeadsTo.eq_withExtension_iff`).
-/

namespace Breadboard

/-- Characters of a path up to a slash, or none at all. -/
def IsFolder (folder : List Char) : Prop := folder = [] ∨ ∃ front, folder = front ++ ['/']

/-- Every path is a folder and something behind it. -/
theorem exists_folder (characters : List Char) :
    ∃ folder last, characters = folder ++ last ∧ IsFolder folder ∧ '/' ∉ last := by
  induction characters with
  | nil => exact ⟨[], [], rfl, .inl rfl, List.not_mem_nil⟩
  | cons character characters ih =>
    obtain ⟨folder, last, rfl, isFolder, noSlash⟩ := ih
    rcases isFolder with rfl | ⟨front, rfl⟩
    · by_cases slash : character = '/'
      · exact ⟨['/'], last, by rw [slash]; rfl, .inr ⟨[], rfl⟩, noSlash⟩
      · refine ⟨[], character :: last, rfl, .inl rfl, ?_⟩
        rw [List.mem_cons, not_or]
        exact ⟨Ne.symm slash, noSlash⟩
    · exact ⟨character :: (front ++ ['/']), last, rfl, .inr ⟨character :: front, rfl⟩, noSlash⟩

theorem singleton_append_ofList (character : Char) (rest : List Char) :
    String.singleton character ++ String.ofList rest = String.ofList (character :: rest) := by
  rw [← String.toList_inj]
  simp

namespace Route

theorem split_ofList_cons (character : Char) (rest : List Char) :
    split (String.ofList (character :: rest)) =
      if character = '/' then "" :: split (String.ofList rest)
      else
        match split (String.ofList rest) with
        | [] => [String.singleton character]
        | part :: others => (String.singleton character ++ part) :: others := by
  rw [split, split, String.toList_ofList, String.toList_ofList]
  exact List.foldr_cons

theorem split_ofList_of_not_mem {last : List Char} (noSlash : '/' ∉ last) :
    split (String.ofList last) = [String.ofList last] := by
  induction last with
  | nil => rfl
  | cons character last ih =>
    rw [List.mem_cons, not_or] at noSlash
    rw [split_ofList_cons, if_neg (Ne.symm noSlash.1), ih noSlash.2]
    simp only [singleton_append_ofList]

theorem split_ofList_ne_nil (characters : List Char) : split (String.ofList characters) ≠ [] := by
  induction characters with
  | nil => exact List.cons_ne_nil _ _
  | cons character rest ih =>
    rw [split_ofList_cons]
    split
    · exact List.cons_ne_nil _ _
    · split <;> exact List.cons_ne_nil _ _

/-- What stands behind the last slash is the last part. -/
theorem split_ofList_append_cons (front : List Char) {last : List Char} (noSlash : '/' ∉ last) :
    split (String.ofList (front ++ '/' :: last)) =
      split (String.ofList front) ++ [String.ofList last] := by
  induction front with
  | nil =>
    rw [List.nil_append, split_ofList_cons, if_pos rfl, split_ofList_of_not_mem noSlash]
    rfl
  | cons character front ih =>
    rw [List.cons_append, split_ofList_cons, split_ofList_cons, ih]
    cases parts : split (String.ofList front) with
    | nil => exact absurd parts (split_ofList_ne_nil front)
    | cons part others => split <;> rfl

/-- The directories in front of a name. -/
def directoriesOf (folder : List Char) : List String := (split (String.ofList folder)).dropLast

theorem split_ofList_append {folder last : List Char} (isFolder : IsFolder folder)
    (noSlash : '/' ∉ last) :
    split (String.ofList (folder ++ last)) = directoriesOf folder ++ [String.ofList last] := by
  rcases isFolder with rfl | ⟨front, rfl⟩
  · exact split_ofList_of_not_mem noSlash
  · rw [directoriesOf, List.append_assoc, List.singleton_append,
      split_ofList_append_cons front noSlash, split_ofList_append_cons front List.not_mem_nil,
      List.dropLast_concat]

/-- Where a path starts that begins with this folder. -/
def startOf (folder : List Char) : List String := if folder.head? = some '/' then ["/"] else []

theorem startOf_append {folder last : List Char} (isFolder : IsFolder folder)
    (noSlash : '/' ∉ last) : startOf (folder ++ last) = startOf folder := by
  rw [startOf, startOf]
  rcases isFolder with rfl | ⟨front, rfl⟩
  · cases last with
    | nil => rfl
    | cons character last =>
      have other : character ≠ '/' := fun same => noSlash (same ▸ List.mem_cons_self)
      simp [other]
  · cases front <;> rfl

/-- **The route of a folder and a name**: the folder says where it goes through. -/
theorem eq_of_ofPath {folder last : List Char} (isFolder : IsFolder folder) (noSlash : '/' ∉ last)
    {start through : List String} {name : String}
    (route : ofPath (String.ofList (folder ++ last)) = .ok ⟨start, through, name, false⟩) :
    last ≠ [] ∧ start = startOf folder ∧ through = directoriesOf folder ∧
      name = String.ofList last := by
  rw [ofPath] at route
  split at route
  · cases route
  split at route
  · cases route
  dsimp only at route
  rw [String.toList_ofList, split_ofList_append isFolder noSlash, List.reverse_concat,
    ← startOf.eq_1, startOf_append isFolder noSlash] at route
  by_cases empty : last = []
  · subst empty
    split at route <;> cases route
  · have named : (String.ofList last == "") = false := by
      rw [beq_eq_false_iff_ne, ← String.ofList_nil]
      exact fun same => empty (String.ofList_injective same)
    rw [List.dropWhile_cons, named, if_neg Bool.false_ne_true] at route
    simp only [List.head?_cons, Option.some_beq_some, named, List.reverse_reverse] at route
    cases route
    exact ⟨empty, rfl, rfl, rfl⟩

end Route

/-- The characters of a name of a file, of whatever length. -/
structure IsName (last : List Char) : Prop where
  noSlash : '/' ∉ last
  notEmpty : last ≠ []
  notHere : last ≠ ['.']
  notAbove : last ≠ ['.', '.']

namespace Path

/-- What stands in front of the last point of a name, and what stands behind it unless the point
comes first or there is none. -/
inductive NameParts : List Char → List Char → Option (List Char) → Prop
  | bare {name : List Char} (noPoint : '.' ∉ name.tail) : NameParts name name none
  | extended {stem extension : List Char} (notEmpty : stem ≠ []) (noPoint : '.' ∉ extension) :
    NameParts (stem ++ '.' :: extension) stem (some extension)

theorem exists_nameParts (name : List Char) :
    ∃ stem extension?, NameParts name stem extension? := by
  by_cases point : '.' ∈ name.tail
  · obtain ⟨first, rest, rfl⟩ :=
      List.exists_cons_of_ne_nil (List.ne_nil_of_mem (List.mem_of_mem_tail point))
    obtain ⟨back, front, split, noPoint⟩ :=
      List.eq_append_cons_of_mem (List.mem_reverse.mpr point)
    have whole : first :: rest = (first :: front.reverse) ++ '.' :: back.reverse := by
      rw [List.tail_cons] at split
      rw [← List.reverse_inj, List.reverse_cons, split]
      simp
    rw [whole]
    exact ⟨_, _, .extended (List.cons_ne_nil _ _) (by simpa using noPoint)⟩
  · exact ⟨_, _, .bare point⟩

/-- Nothing is dropped from a path that ends in a name. -/
theorem dropEnd_append {backwards : List Char} (noSlash : '/' ∉ backwards)
    (notEmpty : backwards ≠ []) (notHere : backwards ≠ ['.']) (folder : List Char) :
    dropEnd (backwards ++ folder) = backwards ++ folder := by
  match backwards with
  | [] => exact absurd rfl notEmpty
  | first :: rest =>
    rw [List.cons_append, dropEnd.eq_def]
    split
    next same =>
      cases same
      exact absurd List.mem_cons_self noSlash
    next same =>
      rw [List.cons.injEq] at same
      cases rest with
      | nil => exact absurd (congrArg ([·]) same.1) notHere
      | cons second rest =>
        rw [List.cons_append, List.cons.injEq] at same
        exact absurd (List.mem_cons_of_mem _ (List.mem_cons.mpr (.inl same.2.1.symm))) noSlash
    next => rfl

theorem bne_of_mem_reverse {separator : Char} {characters : List Char}
    (absent : separator ∉ characters) :
    ∀ character ∈ characters.reverse, (character != separator) = true := by
  intro character member
  rw [bne_iff_ne]
  rintro rfl
  exact absent (List.mem_reverse.mp member)

section

variable {folder last stem : List Char} {extension? : Option (List Char)}

/-- The last slash is where the name is told from the folder. -/
theorem span_dropEnd (isFolder : IsFolder folder) (noSlash : '/' ∉ last) (notEmpty : last ≠ [])
    (notHere : last ≠ ['.']) :
    (dropEnd (folder ++ last).reverse).takeWhile (· != '/') = last.reverse ∧
      (dropEnd (folder ++ last).reverse).dropWhile (· != '/') = folder.reverse := by
  have inside := bne_of_mem_reverse noSlash
  rw [List.reverse_append, dropEnd_append (by simpa using noSlash) (by simpa using notEmpty)
    (by simpa using notHere), List.takeWhile_append_of_pos inside,
    List.dropWhile_append_of_pos inside]
  rcases isFolder with rfl | ⟨front, rfl⟩
  · exact ⟨List.append_nil _, rfl⟩
  · rw [List.reverse_concat]
    exact ⟨List.append_nil _, rfl⟩

/-- **Taking apart** a path that ends in a name. -/
theorem parts?_eq (isFolder : IsFolder folder) (named : IsName last)
    (parts : NameParts last stem extension?) :
    parts? (String.ofList (folder ++ last)) = some ⟨folder, stem, extension?⟩ := by
  obtain ⟨taken, dropped⟩ := span_dropEnd isFolder named.noSlash named.notEmpty named.notHere
  have isNamed : (last.reverse.isEmpty || last.reverse == ['.'] || last.reverse == ['.', '.']) =
      false := by
    simp [named.notEmpty, named.notHere, named.notAbove]
  rw [parts?, String.toList_ofList, taken, dropped, List.reverse_reverse, isNamed,
    if_neg Bool.false_ne_true]
  cases parts with
  | bare noPoint =>
    obtain ⟨first, rest, rfl⟩ := List.exists_cons_of_ne_nil named.notEmpty
    rw [List.tail_cons] at noPoint
    rw [List.reverse_cons, List.dropWhile_append_of_pos (bne_of_mem_reverse noPoint)]
    by_cases point : first = '.'
    · simp [point]
    · simp [point]
  | extended stemNotEmpty noPoint =>
    have inside := bne_of_mem_reverse noPoint
    rw [List.reverse_append, List.reverse_cons, List.append_assoc,
      List.takeWhile_append_of_pos inside, List.dropWhile_append_of_pos inside]
    simp [stemNotEmpty]

theorem parts?_above (isFolder : IsFolder folder) :
    parts? (String.ofList (folder ++ ['.', '.'])) = none := by
  have taken :=
    (@span_dropEnd folder ['.', '.'] isFolder (by decide) (by decide) (by decide)).1
  rw [parts?, String.toList_ofList, taken]
  rfl

theorem extension?_eq (isFolder : IsFolder folder) (named : IsName last)
    (parts : NameParts last stem extension?) :
    Path.extension? (String.ofList (folder ++ last)) = extension?.map String.ofList := by
  rw [Path.extension?, parts?_eq isFolder named parts]
  rfl

/-- **Replacing the extension** keeps the folder and what stands in front of the last point. -/
theorem withExtension_eq (isFolder : IsFolder folder) (named : IsName last)
    (parts : NameParts last stem extension?) (notAbove : stem ≠ ['.']) (extension : String) :
    withExtension extension (String.ofList (folder ++ last)) =
      String.ofList (folder ++ (stem ++ '.' :: extension.toList)) := by
  have joined (stem : List Char) :
      String.ofList (folder ++ stem) ++ "." ++ extension =
        String.ofList (folder ++ (stem ++ '.' :: extension.toList)) := by
    rw [← String.toList_inj]
    simp
  unfold withExtension
  rw [withoutExtension, parts?_eq isFolder named parts]
  cases parts with
  | bare noPoint =>
    dsimp only
    rw [parts?_eq isFolder named (.bare noPoint)]
    exact joined last
  | extended stemNotEmpty noPoint =>
    have noSlash : '/' ∉ stem := fun member => named.noSlash (List.mem_append_left _ member)
    have pointed : IsName (stem ++ ['.']) :=
      ⟨by simpa using noSlash, by simp, by simpa using stemNotEmpty,
        fun above => notAbove (List.append_cancel_right (above : _ = ['.'] ++ ['.']))⟩
    dsimp only
    rw [List.append_assoc, parts?_eq isFolder pointed (.extended stemNotEmpty List.not_mem_nil)]
    exact joined stem

/-- A name such as `..b` becomes `..`, which is no name of a file. -/
theorem withExtension_eq_above (isFolder : IsFolder folder) {extension : List Char}
    (named : IsName ('.' :: '.' :: extension)) (noPoint : '.' ∉ extension) (other : String) :
    withExtension other (String.ofList (folder ++ '.' :: '.' :: extension)) =
      String.ofList (folder ++ ['.', '.']) := by
  have parts : NameParts ('.' :: '.' :: extension) ['.'] (some extension) :=
    .extended (List.cons_ne_nil '.' []) noPoint
  unfold withExtension
  rw [withoutExtension, parts?_eq isFolder named parts]
  dsimp only
  rw [List.append_assoc, List.singleton_append, parts?_above isFolder]

end

end Path

namespace Disk

section

variable {disk : Disk} {path extension : String} {directory inner : List String}
  {name other : String}

/-- A path that is split into a folder and a name leads to a file of this name, in a directory
that the folder decides on. -/
theorem Leads.of_folder {folder last : List Char} (isFolder : IsFolder folder)
    (noSlash : '/' ∉ last) (leads : disk.Leads (String.ofList (folder ++ last)) directory name) :
    IsName last ∧ name = String.ofList last ∧
      disk.enter (Route.startOf folder) (Route.directoriesOf folder) = .ok directory := by
  obtain ⟨start, through, route, entered⟩ := leads.route
  obtain ⟨notEmpty, rfl, rfl, rfl⟩ := Route.eq_of_ofPath isFolder noSlash route
  refine ⟨⟨noSlash, notEmpty, ?_, ?_⟩, rfl, entered⟩
  · rintro rfl
    exact leads.named.notHere rfl
  · rintro rfl
    exact leads.named.notAbove rfl

/-- **Two paths that differ in the extension** lead to files in one directory, whose names have
the same stem. -/
theorem Leads.exists_nameParts (leads : disk.Leads path directory name)
    (another : disk.Leads (Path.withExtension extension path) inner other)
    (noSlash : '/' ∉ extension.toList) :
    inner = directory ∧ ∃ folder last stem extension?,
      IsFolder folder ∧ Path.NameParts last stem extension? ∧ stem ≠ ['.'] ∧
      IsName last ∧ path = String.ofList (folder ++ last) ∧ name = String.ofList last ∧
      IsName (stem ++ '.' :: extension.toList) ∧
      other = String.ofList (stem ++ '.' :: extension.toList) := by
  obtain ⟨folder, last, characters, isFolder, noSlashInLast⟩ := exists_folder path.toList
  obtain rfl : path = String.ofList (folder ++ last) := by
    rw [← characters, String.ofList_toList]
  obtain ⟨named, rfl, entered⟩ := leads.of_folder isFolder noSlashInLast
  obtain ⟨stem, extension?, parts⟩ := Path.exists_nameParts last
  have notAbove : stem ≠ ['.'] := by
    rintro rfl
    cases parts with
    | bare _ => exact named.notHere rfl
    | extended _ noPoint =>
      have above := Path.withExtension_eq_above isFolder named noPoint extension
      rw [List.singleton_append, above] at another
      exact another.named.notAbove (another.of_folder isFolder (by decide)).2.1
  have noSlashInStem : '/' ∉ stem := by
    cases parts with
    | bare _ => exact noSlashInLast
    | extended _ _ => exact fun member => noSlashInLast (List.mem_append_left _ member)
  have replaced : '/' ∉ stem ++ '.' :: extension.toList := by
    simpa [noSlashInStem] using noSlash
  rw [Path.withExtension_eq isFolder named parts notAbove] at another
  obtain ⟨namedAgain, rfl, enteredAgain⟩ := another.of_folder isFolder replaced
  rw [entered] at enteredAgain
  cases enteredAgain
  exact ⟨rfl, folder, last, stem, extension?, isFolder, parts, notAbove, named, rfl, rfl,
    namedAgain, rfl⟩

/-- **They lead to one file** exactly if the extension is the same. -/
theorem LeadsTo.eq_withExtension_iff {file another : List String} (leads : disk.LeadsTo path file)
    (leadsAgain : disk.LeadsTo (Path.withExtension extension path) another)
    (noSlash : '/' ∉ extension.toList) :
    another = file ↔ Path.extension? path = some extension := by
  obtain ⟨directory, name, ends, rfl⟩ := leads
  obtain ⟨inner, other, endsAgain, rfl⟩ := leadsAgain
  obtain ⟨rfl, folder, last, stem, extension?, isFolder, parts, _, named, rfl, rfl, _, rfl⟩ :=
    ends.exists_nameParts endsAgain noSlash
  rw [Path.extension?_eq isFolder named parts, List.append_cancel_left_eq, List.singleton_inj,
    String.ofList_inj]
  cases parts with
  | bare _ => simp
  | extended _ _ =>
    rw [List.append_cancel_left_eq, List.cons.injEq, Option.map_some, Option.some_inj,
      ← String.toList_inj, String.toList_ofList]
    exact (and_iff_right rfl).trans eq_comm

/-- **An extension that was put on** is what the path then has, and replacing it once more is
as if it had never been there. -/
theorem LeadsTo.withExtension_eq {file another : List String} (leads : disk.LeadsTo path file)
    (leadsAgain : disk.LeadsTo (Path.withExtension extension path) another)
    (noSlash : '/' ∉ extension.toList) (noPoint : '.' ∉ extension.toList) :
    Path.extension? (Path.withExtension extension path) = some extension ∧
      ∀ third, Path.withExtension third (Path.withExtension extension path) =
        Path.withExtension third path := by
  obtain ⟨directory, name, ends, rfl⟩ := leads
  obtain ⟨inner, other, endsAgain, rfl⟩ := leadsAgain
  obtain ⟨rfl, folder, last, stem, extension?, isFolder, parts, notAbove, named, rfl, rfl,
    namedAgain, rfl⟩ := ends.exists_nameParts endsAgain noSlash
  have notEmpty : stem ≠ [] := by
    cases parts with
    | bare _ => exact named.notEmpty
    | extended notEmpty _ => exact notEmpty
  have partsAgain : Path.NameParts (stem ++ '.' :: extension.toList) stem (some extension.toList) :=
    .extended notEmpty noPoint
  rw [Path.withExtension_eq isFolder named parts notAbove]
  constructor
  · rw [Path.extension?_eq isFolder namedAgain partsAgain, Option.map_some, String.ofList_toList]
  · intro third
    rw [Path.withExtension_eq isFolder namedAgain partsAgain notAbove,
      Path.withExtension_eq isFolder named parts notAbove]

end

section

variable {disk written : Disk} {path another : String} {content stored : List UInt8}

/-- A path that leads somewhere ends in a name. -/
theorem Leads.exists_isName {directory : List String} {name : String}
    (leads : disk.Leads path directory name) :
    ∃ folder last, IsFolder folder ∧ IsName last ∧ path = String.ofList (folder ++ last) ∧
      name = String.ofList last := by
  obtain ⟨folder, last, characters, isFolder, noSlash⟩ := exists_folder path.toList
  obtain rfl : path = String.ofList (folder ++ last) := by
    rw [← characters, String.ofList_toList]
  obtain ⟨named, same, _⟩ := leads.of_folder isFolder noSlash
  exact ⟨folder, last, isFolder, named, rfl, same⟩

/-- The extension of a path is that of the file which it leads to. -/
theorem LeadsTo.extension?_eq {file : List String} (leads : disk.LeadsTo path file)
    (leadsAgain : disk.LeadsTo another file) :
    Path.extension? path = Path.extension? another := by
  obtain ⟨directory, name, ends, there⟩ := leads
  obtain ⟨inner, other, endsAgain, thereAgain⟩ := leadsAgain
  have same : name = other := by
    rw [there] at thereAgain
    exact List.singleton_inj.mp (List.append_inj_right' thereAgain rfl)
  obtain ⟨folder, last, isFolder, named, rfl, rfl⟩ := ends.exists_isName
  obtain ⟨otherFolder, otherLast, isOtherFolder, otherNamed, rfl, rfl⟩ := endsAgain.exists_isName
  obtain rfl : last = otherLast := String.ofList_injective same
  obtain ⟨stem, extension?, parts⟩ := Path.exists_nameParts last
  rw [Path.extension?_eq isFolder named parts, Path.extension?_eq isOtherFolder otherNamed parts]

/-- What is written under another extension leaves a file as it is. -/
theorem read_of_write_of_extension? (found : disk.read path = .ok stored)
    (done : disk.write another content = .ok written)
    (apart : Path.extension? path ≠ Path.extension? another) :
    written.read path = .ok stored := by
  obtain ⟨file, leads, present⟩ := read_eq_ok_iff.mp found
  obtain ⟨elsewhere, leadsElsewhere, same, files⟩ := exists_leadsTo_of_write done
  rw [read_eq_ok_iff]
  refine ⟨file, leads.of_hasDirectory same, ?_⟩
  rw [files, if_neg]
  · exact present
  · rintro rfl
    exact apart (leads.extension?_eq leadsElsewhere)

/-- What can be written beside a file has the extension that was asked for. -/
theorem extension?_of_write {extension : String} (found : disk.read path = .ok stored)
    (done : disk.write (Path.withExtension extension path) content = .ok written)
    (noSlash : '/' ∉ extension.toList) (noPoint : '.' ∉ extension.toList) :
    Path.extension? (Path.withExtension extension path) = some extension := by
  obtain ⟨file, leads, _⟩ := read_eq_ok_iff.mp found
  obtain ⟨beside, leadsBeside, _⟩ := exists_leadsTo_of_write done
  exact (leads.withExtension_eq leadsBeside noSlash noPoint).1

end

end Disk

end Breadboard
