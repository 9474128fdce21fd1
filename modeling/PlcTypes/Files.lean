import PlcTypes.Text.Space

/-!
# Files and paths

A program reads and writes files through an access that says how each operation is done in a
monad. The same program then runs on a real file system and on a model of one.

Paths are texts with slashes between the names. Empty names and single dots stay where they are.
-/

namespace PlcTypes

open Text

/-- Why the file system refuses. -/
inductive FileFault where
  | missing
  | taken
  | notDirectory
  | isDirectory
  | nameTooLong
  | badName
  | notText
  | other (report : String)
  deriving DecidableEq, Repr

/-- The report of a fault. -/
def FileFault.message : FileFault → String
  | missing => "No such file or directory (os error 2)"
  | taken => "File exists (os error 17)"
  | notDirectory => "Not a directory (os error 20)"
  | isDirectory => "Is a directory (os error 21)"
  | nameTooLong => "File name too long (os error 36)"
  | badName => "file name contained an unexpected NUL byte"
  | notText => "stream did not contain valid UTF-8"
  | other report => report

/-- The operations of a file system. -/
structure FileAccess (m : Type → Type) where
  /-- The text of a file. -/
  read : String → m (Except FileFault String)
  /-- Whether a path leads to a directory. -/
  isDirectory : String → m Bool
  /-- Make a file hold a text, and nothing else. -/
  write : String → String → m (Except FileFault Unit)
  /-- Make a directory in one that exists. -/
  makeDirectory : String → m (Except FileFault Unit)

namespace Path

/-- Split a text at every slash. -/
def splitSlashes : List Char → List (List Char)
  | [] => [[]]
  | c :: rest =>
    if c = '/' then [] :: splitSlashes rest
    else
      match splitSlashes rest with
      | [] => [[c]]
      | first :: others => (c :: first) :: others

/-- The names on a path, with empty ones. -/
def names (path : String) : List String := (splitSlashes path.toList).map String.ofList

/-- The names that matter: those that are not empty and not a single dot. -/
def properNames (path : String) : List String :=
  (names path).filter fun name => name != "" && name != "."

/-- Whether a path starts at the root. -/
def isAbsolute (path : String) : Bool := path.toList.head? == some '/'

/-- A path from a directory on. -/
def join (directory path : String) : String :=
  if isAbsolute path || directory.isEmpty then path
  else if directory.toList.getLast? == some '/' then directory ++ path
  else directory ++ "/" ++ path

/-- The file name a path ends in, unless it leads upwards. -/
def fileName? (path : String) : Option String :=
  (properNames path).getLast?.filter (· != "..")

/-- The part of a file name after its last dot, if the dot is not at the front. -/
def extension (path : String) : String :=
  match fileName? path with
  | none => ""
  | some name =>
    let name := name.toList
    let stem := name.reverse.dropWhile (· != '.')
    if stem.length ≤ 1 then "" else String.ofList (name.drop stem.length)

/-- A path and all directories above it, nearest first. -/
def lineage (path : String) : List String :=
  (properNames path).foldl
    (fun above name => join (above.headD "") name :: above)
    [if isAbsolute path then "/" else ""]

/-- The directories a path is in, nearest first. -/
def ancestors (path : String) : List String := (lineage path).tail

end Path

namespace FileAccess

variable {m : Type → Type} [Monad m]

/-- A fault does not matter if the directory is there. -/
def unlessDirectory (access : FileAccess m) (path : String) (fault : FileFault) :
    m (Except FileFault Unit) := do
  return if ← access.isDirectory path then .ok () else .error fault

/-- Make the first directory of a list, where each one is in the next, and before that those of
the others that are missing. -/
def makeDirectories (access : FileAccess m) : List String → m (Except FileFault Unit)
  | [] => return .error .missing
  | path :: above => do
    if path.isEmpty then return .ok ()
    match ← access.makeDirectory path with
    | .ok () => return .ok ()
    | .error .missing =>
      match ← access.makeDirectories above with
      | .error fault => return .error fault
      | .ok () =>
        match ← access.makeDirectory path with
        | .ok () => return .ok ()
        | .error fault => access.unlessDirectory path fault
    | .error fault => access.unlessDirectory path fault

end FileAccess

end PlcTypes
