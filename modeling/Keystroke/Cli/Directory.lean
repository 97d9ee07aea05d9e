import Keystroke.Cli.FileAccess

/-!
# A directory in memory

A directory holds files and folders under paths. A path is read from left to right, and all of its
parts but the last have to be folders.
-/

namespace Keystroke.Cli

/-- A directory: the texts of its files and its folders, by the parts of their paths. A folder that
something is in need not be listed. -/
structure Directory where
  files : List (List String × String) := []
  folders : List (List String) := []

/-- What stands at a path. -/
inductive Entry where
  | file (text : String)
  | folder
deriving DecidableEq, Repr

namespace Directory

def parts (path : String) : List String :=
  let (part, others) := cut path.toList
  (part :: others).map String.ofList
where
  /-- The characters before the first slash, and the parts after it. -/
  cut : List Char → List Char × List (List Char)
    | [] => ([], [])
    | c :: rest =>
      let (part, others) := cut rest
      if c = '/' then ([], part :: others) else (c :: part, others)

/-- What stands at the parts of a path. -/
def find? (directory : Directory) (path : List String) : Option Entry :=
  match directory.files.lookup path with
  | some text => some (.file text)
  | none =>
    if path.isEmpty || directory.folders.any (path.isPrefixOf ·) ||
        directory.files.any fun file => path.isPrefixOf file.1 then
      some .folder
    else
      none

/-- Where a path leads: to a place in the directory, or to a folder around it. -/
inductive Place where
  | inside (path : List String)
  | around
deriving DecidableEq, Repr

/-- Follows the parts of a path from a place. Every part is looked for in a folder, and the folders
around the directory hold nothing else. -/
def follow (directory : Directory) : Place → List String → Except FileError Place
  | place, [] => .ok place
  | .around, part :: rest =>
    if part = "" || part = "." || part = ".." then directory.follow .around rest
    else .error .notFound
  | .inside path, part :: rest =>
    match directory.find? path with
    | none => .error .notFound
    | some (.file _) => .error .notDirectory
    | some .folder =>
      if part = "" || part = "." then directory.follow (.inside path) rest
      else if part = ".." then
        directory.follow (if path.isEmpty then .around else .inside path.dropLast) rest
      else directory.follow (.inside (path ++ [part])) rest

/-- The place that a path leads to. An empty path leads nowhere. -/
def resolve (directory : Directory) (path : String) : Except FileError Place :=
  match path.toList with
  | [] => .error .notFound
  | '/' :: _ => directory.follow .around (parts path)
  | _ => directory.follow (.inside []) (parts path)

def read (directory : Directory) (path : String) : Except FileError String := do
  match ← directory.resolve path with
  | .around => throw .isDirectory
  | .inside place =>
    match directory.find? place with
    | some (.file text) => return text
    | some .folder => throw .isDirectory
    | none => throw .notFound

def write (directory : Directory) (path text : String) : Except FileError Directory := do
  match ← directory.resolve path with
  | .around => throw .isDirectory
  | .inside place =>
    match directory.find? place with
    | some .folder => throw .isDirectory
    | _ =>
      match directory.find? place.dropLast with
      | some .folder =>
        let others := directory.files.filter fun file => file.1 != place
        return { directory with files := (place, text) :: others }
      | some (.file _) => throw .notDirectory
      | none => throw .notFound

/-- The operations on the files of a directory in memory. -/
def access : FileAccess (StateM Directory) where
  read path := return (← get).read path
  write path text := do
    match (← get).write path text with
    | .ok directory =>
      set directory
      return .ok ()
    | .error error => return .error error

end Directory

end Keystroke.Cli
