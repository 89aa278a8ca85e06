/-!
# File names and their extensions

The extension of a path is what follows the last point of its last part, unless that
point comes first: `.asm` is a name without an extension. Slashes and parts that are a
single point do not count at the end of a path, and a path that ends in `..` has no
name.
-/

namespace Breadboard

namespace Path

structure Parts where
  folder : List Char
  stem : List Char
  /-- What follows the last point of the file name. -/
  extension? : Option (List Char)
deriving DecidableEq, Repr

/-- A reversed path without the slashes and single points at its end. -/
def dropEnd : List Char → List Char
  | '/' :: rest => dropEnd rest
  | '.' :: '/' :: rest => dropEnd rest
  | rest => rest

/-- Takes a path apart. There are no parts if it has no file name. -/
def parts? (path : String) : Option Parts :=
  let backwards := dropEnd path.toList.reverse
  let name := backwards.takeWhile (· != '/')
  let folder := (backwards.dropWhile (· != '/')).reverse
  if name.isEmpty || name == ['.'] || name == ['.', '.'] then none
  else
    match name.dropWhile (· != '.') with
    | [] | ['.'] => some ⟨folder, name.reverse, none⟩
    | _ :: stem => some ⟨folder, stem.reverse, some (name.takeWhile (· != '.')).reverse⟩

def extension? (path : String) : Option String :=
  ((parts? path).bind (·.extension?)).map String.ofList

/-- The path without its extension, up to the point in front of it. -/
def withoutExtension (path : String) : String :=
  match parts? path with
  | some ⟨folder, stem, some _⟩ => String.ofList (folder ++ stem ++ ['.'])
  | some ⟨_, _, none⟩ | none => path

/-- The path with another extension in place of its own, which is taken off first. What
then has no file name gets no extension, so that `..b` becomes `..`. -/
def withExtension (extension path : String) : String :=
  let bare := withoutExtension path
  match parts? bare with
  | some parts => String.ofList (parts.folder ++ parts.stem) ++ "." ++ extension
  | none => bare

end Path

end Breadboard
