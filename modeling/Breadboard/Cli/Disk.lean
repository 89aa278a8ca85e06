/-!
# Files and directories

A disk is a list of files, each named by the parts of its path; the directories are the
ones that files lie in. A path is followed part by part from the working directory, with
the answers that an operating system gives when a part is missing, is no directory or has
too long a name. A slash at the end of a path asks for a directory, so that nothing can
be written there, whatever is found.
-/

namespace Breadboard

inductive FileError where
  | notFound
  | notDirectory
  | isDirectory
  /-- A part of the path, or the whole path, has too many bytes. -/
  | nameTooLong
  | other (message : String)
deriving DecidableEq, Repr

namespace FileError

def message : FileError → String
  | notFound => "No such file or directory (os error 2)"
  | notDirectory => "Not a directory (os error 20)"
  | isDirectory => "Is a directory (os error 21)"
  | nameTooLong => "File name too long (os error 36)"
  | other message => message

end FileError

/-- The bytes that one part of a path may have. -/
def nameLimit : Nat := 255

/-- The bytes that a whole path may have. -/
def pathLimit : Nat := 4095

structure Route where
  /-- The directory from which it is followed. -/
  start : List String
  /-- The parts in front of the last one, all of which have to be directories. -/
  through : List String
  last : String
  closed : Bool
deriving DecidableEq, Repr

namespace Route

def split (path : String) : List String :=
  path.toList.foldr
    (fun character parts =>
      if character = '/' then "" :: parts
      else
        match parts with
        | [] => [String.singleton character]
        | part :: rest => (String.singleton character ++ part) :: rest)
    [""]

/-- The route of a path. A path of slashes alone ends where it starts. -/
def ofPath (path : String) : Except FileError Route :=
  if path == "" then .error .notFound
  else if pathLimit < path.utf8ByteSize then .error .nameTooLong
  else
    let start := if path.toList.head? = some '/' then ["/"] else []
    let backwards := (split path).reverse
    match backwards.dropWhile (· == "") with
    | [] => .ok ⟨start, [], "", true⟩
    | last :: through => .ok ⟨start, through.reverse, last, backwards.head? == some ""⟩

end Route

/-- A disk as seen from the working directory. The path of a file outside of it starts
with `..` or `/`. -/
structure Disk where
  files : List (List String × List UInt8) := []
deriving DecidableEq, Repr

/-- What a name in a directory stands for. -/
inductive Place where
  | directory (path : List String)
  | file (path : List String) (content : List UInt8)
  /-- Nothing as yet; a file can be made there. -/
  | vacant (path : List String)
deriving DecidableEq, Repr

namespace Disk

/-- Whether a path only leads upwards. Nothing is known about such directories but that
they exist. -/
def isAbove (directory : List String) : Bool :=
  directory.all fun part => part == ".." || part == "/"

def hasDirectory (directory : List String) (disk : Disk) : Bool :=
  isAbove directory ||
    disk.files.any fun (path, _) => directory.isPrefixOf path && directory.length < path.length

def file? (path : List String) (disk : Disk) : Option (List UInt8) :=
  disk.files.lookup path

def parent (directory : List String) : List String :=
  if directory == ["/"] then directory
  else if isAbove directory then directory ++ [".."]
  else directory.dropLast

/-- Looks a name up in a directory that is there. -/
def lookUp (disk : Disk) (directory : List String) (name : String) : Except FileError Place :=
  if name == "" || name == "." then .ok (.directory directory)
  else if name == ".." then .ok (.directory (parent directory))
  else if nameLimit < name.utf8ByteSize then .error .nameTooLong
  else
    let path := directory ++ [name]
    if disk.hasDirectory path then .ok (.directory path)
    else
      match disk.file? path with
      | some content => .ok (.file path content)
      | none => .ok (.vacant path)

/-- Goes through directories, one in the other, and gives the path of the last. -/
def enter (disk : Disk) (directory : List String) : List String → Except FileError (List String)
  | [] => .ok directory
  | name :: rest =>
    match disk.lookUp directory name with
    | .ok (.directory inner) => disk.enter inner rest
    | .ok (.file _ _) => .error .notDirectory
    | .ok (.vacant _) => .error .notFound
    | .error failure => .error failure

def read (path : String) (disk : Disk) : Except FileError (List UInt8) := do
  let route ← Route.ofPath path
  let directory ← disk.enter route.start route.through
  match ← disk.lookUp directory route.last with
  | .directory _ => .error .isDirectory
  | .file _ content => if route.closed then .error .notDirectory else .ok content
  | .vacant _ => .error .notFound

def replace (path : List String) (content : List UInt8) :
    List (List String × List UInt8) → List (List String × List UInt8)
  | [] => []
  | (other, old) :: rest =>
    if other = path then (path, content) :: rest else (other, old) :: replace path content rest

/-- Writes the file at a path, and makes it if it is not there. The last part of a path
that ends in a slash is not even looked up. -/
def write (path : String) (content : List UInt8) (disk : Disk) : Except FileError Disk := do
  let route ← Route.ofPath path
  let directory ← disk.enter route.start route.through
  if route.closed then .error .isDirectory
  else
    match ← disk.lookUp directory route.last with
    | .directory _ => .error .isDirectory
    | .file path _ => .ok ⟨replace path content disk.files⟩
    | .vacant path => .ok ⟨disk.files ++ [(path, content)]⟩

def holds (path : String) (disk : Disk) : Bool :=
  match disk.read path with
  | .ok _ | .error .isDirectory => true
  | .error _ => false

end Disk

end Breadboard
