import SchemaAtlas.Files.Path
import SchemaAtlas.Text.Quoted
import SchemaAtlas.Workbook.Basic

/-!
# File systems

What the program asks of the files around it. The requests are a record, so that the same code runs
on the files of a machine and on files that are a value.
-/
namespace SchemaAtlas

/-- Why a file operation fails; the path is the one that the operation was given. -/
inductive FileError
  | notFound (path : FilePath)
  | alreadyExists (path : FilePath)
  | notADirectory (path : FilePath)
  | isADirectory (path : FilePath)
  /-- The bytes of a file are no text. -/
  | notAText
  /-- A path holds a null character, which no file name does. -/
  | nullCharacter (operation : String)
  /-- The links on the way lead back to themselves. -/
  | endlessLinks (path : FilePath)
  /-- Any other failure that the system reports, as it is described. -/
  | other (description : String)
  deriving DecidableEq

namespace FileError

def numbered (code : Nat) (description : String) (path : FilePath) : String :=
  "[Errno " ++ toString code ++ "] " ++ description ++ ": " ++ Text.quoted path.text

def message : FileError → String
  | notFound path => numbered 2 "No such file or directory" path
  | alreadyExists path => numbered 17 "File exists" path
  | notADirectory path => numbered 20 "Not a directory" path
  | isADirectory path => numbered 21 "Is a directory" path
  | notAText => "The file is not valid UTF-8."
  | nullCharacter "" => "embedded null byte"
  | nullCharacter operation => operation ++ ": embedded null character in path"
  | endlessLinks path => "Symlink loop from " ++ Text.quoted path.text
  | other description => description

/-- Whether the system reports the failure, and not the program that reads or names the file. -/
def isReportedBySystem : FileError → Bool
  | notAText | nullCharacter _ | endlessLinks _ => false
  | _ => true

end FileError

/-- What can be written to a file. -/
inductive FileContent
  | bytes (data : ByteArray)
  | workbook (workbook : Workbook)

/-- Two files of bytes have the same content if their bytes are the same one by one. -/
instance : DecidableEq FileContent
  | .bytes a, .bytes b =>
    decidable_of_decidable_of_iff (p := a.data = b.data)
      ⟨fun h => congrArg FileContent.bytes (ByteArray.ext h), fun h => by cases h; rfl⟩
  | .workbook v, .workbook w =>
    decidable_of_decidable_of_iff (p := v = w) ⟨congrArg FileContent.workbook, fun h => by cases h; rfl⟩
  | .bytes _, .workbook _ | .workbook _, .bytes _ => isFalse nofun

/-- The requests to a file system. Every one of them may fail, in whichever way the system does. -/
structure FileSystem (m : Type → Type) where
  /-- Whether there is a file or a directory at a path. -/
  isPresent : FilePath → m (Except FileError Bool)
  isDirectory : FilePath → m (Except FileError Bool)
  readBytes : FilePath → m (Except FileError ByteArray)
  write : FilePath → FileContent → m (Except FileError Unit)
  makeDirectory : FilePath → m (Except FileError Unit)
  /-- The absolute path without steps up. -/
  resolve : FilePath → m (Except FileError FilePath)

/-- Every way to end a line is read as a line feed. -/
def unifyLineEnds : List Char → List Char
  | [] => []
  | '\r' :: '\n' :: rest => '\n' :: unifyLineEnds rest
  | '\r' :: rest => '\n' :: unifyLineEnds rest
  | c :: rest => c :: unifyLineEnds rest

/-- The text that bytes encode. -/
def decodeText (data : ByteArray) : Except FileError String :=
  match String.fromUTF8? data with
  | some text => .ok (String.ofList (unifyLineEnds text.toList))
  | none => .error .notAText

namespace FileSystem

variable {m : Type → Type} [Monad m]

/-- Reads a file as a text. -/
def readText (fs : FileSystem m) (path : FilePath) : ExceptT FileError m String := do
  decodeText (← ExceptT.mk (fs.readBytes path))

def writeText (fs : FileSystem m) (path : FilePath) (text : String) : ExceptT FileError m Unit :=
  ExceptT.mk (fs.write path (.bytes text.toUTF8))

/-- Whether the failure to make a directory leaves one there anyway. -/
def settle (fs : FileSystem m) (path : FilePath) (error : FileError) : ExceptT FileError m Unit := do
  if !error.isReportedBySystem then throw error
  if !(← ExceptT.mk (fs.isDirectory path)) then throw error

/-- Makes a directory; one that is there already is fine, and one below nothing is not. -/
def ensureDirectory (fs : FileSystem m) (path : FilePath) : ExceptT FileError m Unit :=
  tryCatch (ExceptT.mk (fs.makeDirectory path)) fun error =>
    match error with
    | .notFound _ => throw error
    | _ => fs.settle path error

/--
Makes a directory with all those above it. What is above is made only where it is missing; the bound
is the number of names of the path.
-/
def ensureDirectories (fs : FileSystem m) : (bound : Nat) → FilePath → ExceptT FileError m Unit
  | 0, path => fs.ensureDirectory path
  | bound + 1, path =>
    tryCatch (ExceptT.mk (fs.makeDirectory path)) fun error =>
      match error with
      | .notFound _ => do
        if path.names.isEmpty then throw error
        fs.ensureDirectories bound path.parent
        fs.ensureDirectory path
      | _ => fs.settle path error

end FileSystem
end SchemaAtlas
