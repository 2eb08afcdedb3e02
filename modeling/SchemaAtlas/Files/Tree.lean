import SchemaAtlas.Files.System

/-!
# File trees

Files and directories as a value, with a working directory. A path is followed name by name: every
name but the last has to be a directory, and a step up leads to the directory above. There are no
links, no permissions and no limits on names here, so fewer requests fail than on a machine.
-/
namespace SchemaAtlas

inductive FileEntry
  | directory
  | file (content : FileContent)
  deriving DecidableEq

structure FileTree where
  /-- The entries by the names that lead to them from the root; the root itself is not among them. -/
  entries : List (List String × FileEntry)
  /-- The names that lead to the working directory. -/
  working : List String

namespace FileTree

/-- The entry at some names from the root. -/
def entry? (t : FileTree) (names : List String) : Option FileEntry :=
  if names.isEmpty then some .directory else t.entries.lookup names

/-- Where following a path ends. -/
inductive Place
  | missing
  | notADirectory
  /-- At these names; there may be nothing at the last one. -/
  | found (names : List String) (entry : Option FileEntry)

/-- Follows names from a place. -/
def follow (t : FileTree) (names : List String) (entry : Option FileEntry) : List String → Place
  | [] => .found names entry
  | name :: rest =>
    match entry with
    | none => .missing
    | some (.file _) => .notADirectory
    | some .directory =>
      let next := if name = FilePath.parentName then names.dropLast else names ++ [name]
      t.follow next (t.entry? next) rest

/-- Where a path leads. -/
def locate (t : FileTree) (path : FilePath) : Place :=
  let start := if path.isAbsolute then [] else t.working
  t.follow start (t.entry? start) path.names

def isPresent (t : FileTree) (path : FilePath) : Bool :=
  match t.locate path with
  | .found _ (some _) => !path.hasNull
  | _ => false

def isDirectory (t : FileTree) (path : FilePath) : Bool :=
  match t.locate path with
  | .found _ (some .directory) => !path.hasNull
  | _ => false

/-- The content of a file. -/
def read (t : FileTree) (path : FilePath) : Except FileError FileContent :=
  if path.hasNull then .error (.nullCharacter "")
  else
    match t.locate path with
    | .found _ (some (.file content)) => .ok content
    | .found _ (some .directory) => .error (.isADirectory path)
    | .found _ none | .missing => .error (.notFound path)
    | .notADirectory => .error (.notADirectory path)

/-- The tree with an entry set. -/
def put (t : FileTree) (names : List String) (entry : FileEntry) : FileTree :=
  { t with entries := (names, entry) :: t.entries.filter fun e => e.1 != names }

/-- The tree with a file written. -/
def write (t : FileTree) (path : FilePath) (content : FileContent) : Except FileError FileTree :=
  if path.hasNull then .error (.nullCharacter "")
  else
    match t.locate path with
    | .found _ (some .directory) => .error (.isADirectory path)
    | .found names _ => .ok (t.put names (.file content))
    | .missing => .error (.notFound path)
    | .notADirectory => .error (.notADirectory path)

/-- The tree with a directory made. -/
def makeDirectory (t : FileTree) (path : FilePath) : Except FileError FileTree :=
  if path.hasNull then .error (.nullCharacter "mkdir")
  else
    match t.locate path with
    | .found _ (some _) => .error (.alreadyExists path)
    | .found names none => .ok (t.put names .directory)
    | .missing => .error (.notFound path)
    | .notADirectory => .error (.notADirectory path)

def resolve (t : FileTree) (path : FilePath) : Except FileError FilePath :=
  if path.hasNull then .error (.nullCharacter "lstat") else .ok (path.resolvedFrom t.working)

/-- The files that are new or have another content than before. -/
def changes (before after : FileTree) : List (List String × FileContent) :=
  after.entries.filterMap fun entry =>
    match entry.2 with
    | .directory => none
    | .file content => if before.entry? entry.1 = some entry.2 then none else some (entry.1, content)

/-- Changes the tree, unless that fails. -/
def update (change : FileTree → Except FileError FileTree) :
    StateM FileTree (Except FileError Unit) := do
  match change (← get) with
  | .ok t =>
    set t
    return .ok ()
  | .error e => return .error e

/-- The bytes of a file; a workbook is no text. -/
def readBytes (t : FileTree) (path : FilePath) : Except FileError ByteArray := do
  match ← t.read path with
  | .bytes data => return data
  | .workbook _ => throw .notAText

/-- The file system whose files are the state. -/
def system : FileSystem (StateM FileTree) where
  isPresent path := return .ok ((← get).isPresent path)
  isDirectory path := return .ok ((← get).isDirectory path)
  readBytes path := return (← get).readBytes path
  write path content := update fun t => t.write path content
  makeDirectory path := update fun t => t.makeDirectory path
  resolve path := return (← get).resolve path

end FileTree
end SchemaAtlas
