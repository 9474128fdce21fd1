import PlcTypes.Files

/-!
# A model of a file system

A store holds files and directories under the lists of names that lead to them from the root.
A path is walked name by name from the root or from the current directory, and every name but
the last has to be that of a directory. An operation that fails leaves the store as it was.
-/

namespace PlcTypes

/-- What a file holds: a text, or bytes that are none. -/
inductive Content where
  | text (text : String)
  | binary
  deriving DecidableEq, Repr

/-- What a list of names can lead to. -/
inductive Entry where
  | directory
  | file (content : Content)
  deriving DecidableEq, Repr

/-- A file system with a current directory. The root is always there. -/
structure FileStore where
  here : List String
  entries : List (List String × Entry)

namespace FileStore

/-- The entry at a place. -/
def entry? (store : FileStore) (place : List String) : Option Entry :=
  if place = [] then some .directory else store.entries.lookup place

/-- The content of the file at a place. -/
def content? (store : FileStore) (place : List String) : Option Content :=
  match store.entry? place with
  | some (.file content) => some content
  | _ => none

/-- Remove the entry at a place. -/
def erase (store : FileStore) (place : List String) : FileStore :=
  { store with entries := store.entries.filter fun entry => entry.1 != place }

/-- Put an entry at a place. -/
def put (store : FileStore) (place : List String) (entry : Entry) : FileStore :=
  { store with entries := (place, entry) :: (store.erase place).entries }

/-- The bytes a name may have. -/
def nameLimit : Nat := 255

/-- The bytes a path may have. -/
def pathLimit : Nat := 4095

/-- The entry of a name in a directory. -/
def child (store : FileStore) (directory : List String) (name : String) :
    Except FileFault (Option Entry) :=
  if nameLimit < name.utf8ByteSize then .error .nameTooLong
  else .ok (store.entry? (directory ++ [name]))

/-- Go from a directory to the one of a name. -/
def enter (store : FileStore) (directory : List String) (name : String) :
    Except FileFault (List String) := do
  if name = "" ∨ name = "." then return directory
  if name = ".." then return directory.dropLast
  match ← store.child directory name with
  | none => .error .missing
  | some (.file _) => .error .notDirectory
  | some .directory => return directory ++ [name]

/-- What a path leads to: a directory that is there, or a name in one, followed by a slash or
not. -/
inductive Target where
  | directory (place : List String)
  | name (parent : List String) (name : String) (slash : Bool)

/-- Walk a path up to its last name. -/
def target (store : FileStore) (path : String) : Except FileFault Target := do
  if path = "" then .error .missing
  if '\x00' ∈ path.toList then .error .badName
  if pathLimit < path.utf8ByteSize then .error .nameTooLong
  let start := if Path.isAbsolute path then [] else store.here
  let names := (Path.names path).reverse
  match names.dropWhile (· == "") with
  | [] => return .directory start
  | last :: before =>
    let parent ← before.reverse.foldlM store.enter start
    if last = "." then return .directory parent
    if last = ".." then return .directory parent.dropLast
    return .name parent last (names.head? == some "")

/-- The entry a path leads to. -/
def find (store : FileStore) (path : String) : Except FileFault Entry := do
  match ← store.target path with
  | .directory _ => return .directory
  | .name parent name slash =>
    match ← store.child parent name with
    | none => .error .missing
    | some (.file content) => if slash then .error .notDirectory else return .file content
    | some .directory => return .directory

/-- The text of the file a path leads to. -/
def read (store : FileStore) (path : String) : Except FileFault String := do
  match ← store.find path with
  | .directory => .error .isDirectory
  | .file .binary => .error .notText
  | .file (.text text) => return text

/-- Whether a path leads to a directory. -/
def isDirectory (store : FileStore) (path : String) : Bool :=
  match store.find path with
  | .ok .directory => true
  | _ => false

/-- Where the file is that a path leads to for writing, whether or not it is there. -/
def writable (store : FileStore) (path : String) : Except FileFault (List String) := do
  match ← store.target path with
  | .directory _ => .error .isDirectory
  | .name parent name slash =>
    if slash then .error .isDirectory
    match ← store.child parent name with
    | some .directory => .error .isDirectory
    | _ => return parent ++ [name]

/-- Where the directory is that a path leads to and that is still to be made. -/
def makeable (store : FileStore) (path : String) : Except FileFault (List String) := do
  match ← store.target path with
  | .directory _ => .error .taken
  | .name parent name _ =>
    match ← store.child parent name with
    | some _ => .error .taken
    | none => return parent ++ [name]

/-- Put an entry where it may go. -/
def putAt (place : FileStore → Except FileFault (List String)) (entry : Entry) :
    StateM FileStore (Except FileFault Unit) := fun store =>
  match place store with
  | .ok place => (.ok (), store.put place entry)
  | .error fault => (.error fault, store)

/-- The operations of a file system on a store. -/
def access : FileAccess (StateM FileStore) where
  read path := do return (← get).read path
  isDirectory path := do return (← get).isDirectory path
  write path text := putAt (fun store => store.writable path) (.file (.text text))
  makeDirectory path := putAt (fun store => store.makeable path) .directory

end FileStore

end PlcTypes
