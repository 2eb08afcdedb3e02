import SchemaAtlas.CommandLine.Run
import SchemaAtlas.Workbook.Package

/-!
# The command line program

The files of the machine as a file system, and a run of the program on them.
-/
namespace SchemaAtlas

/-- The number and the description of a failure, where the machine gives them. -/
def machineCode : IO.Error → Nat × String
  | .alreadyExists _ code details | .otherError code details | .resourceBusy code details
  | .resourceVanished code details | .unsupportedOperation code details
  | .hardwareFault code details | .unsatisfiedConstraints code details
  | .illegalOperation code details | .protocolError code details | .timeExpired code details
  | .interrupted _ code details | .noFileOrDirectory _ code details
  | .invalidArgument _ code details | .permissionDenied _ code details
  | .resourceExhausted _ code details | .inappropriateType _ code details
  | .noSuchThing _ code details => (code.toNat, details)
  | .unexpectedEof => (0, "unexpected end of file")
  | .userError details => (0, details)

/-- A failure of the machine at a path. -/
def FileError.ofMachine (path : FilePath) (error : IO.Error) : FileError :=
  match machineCode error with
  | (2, _) => .notFound path
  | (17, _) => .alreadyExists path
  | (20, _) => .notADirectory path
  | (21, _) => .isADirectory path
  | (code, details) => .other (FileError.numbered code details path)

/-- An operation of the machine on a path; a path with a null character never reaches it. -/
def onMachine (operation : String) (path : FilePath) (action : IO α) : IO (Except FileError α) := do
  if path.hasNull then return .error (.nullCharacter operation)
  try return .ok (← action) catch error => return .error (.ofMachine path error)

def FileContent.encode : FileContent → ByteArray
  | .bytes data => data
  | .workbook w => w.encode

/-- The path that the machine knows a file by, or where it would be. -/
def resolveOnMachine (path : FilePath) : IO FilePath := do
  try return .ofText (toString (← IO.FS.realPath path.text))
  catch _ =>
    let directory := FilePath.ofText (toString (← IO.currentDir))
    return path.resolvedFrom directory.names

/-- What stands at a path, if anything does; a loop of links is nothing, like a missing name. -/
def kindOnMachine (path : FilePath) : IO (Except FileError (Option IO.FS.FileType)) := do
  if path.hasNull then return .ok none
  try return .ok (some (← (System.mkFilePath [path.text]).metadata).type)
  catch error =>
    match (machineCode error).1 with
    | 2 | 9 | 20 | 40 => return .ok none
    | _ => return .error (.ofMachine path error)

/-- The files of the machine. -/
def machine : FileSystem IO where
  isPresent path := return (← kindOnMachine path).map (·.isSome)
  isDirectory path := return (← kindOnMachine path).map (· == some .dir)
  readBytes path := onMachine "" path (IO.FS.readBinFile path.text)
  write path content := onMachine "" path (IO.FS.writeBinFile path.text content.encode)
  makeDirectory path := onMachine "mkdir" path (IO.FS.createDir path.text)
  resolve path := onMachine "lstat" path (resolveOnMachine path)

end SchemaAtlas

open SchemaAtlas in
def main (words : List String) : IO UInt32 := do
  let output ← CommandLine.run machine words
  IO.print output.stdout
  IO.eprint output.stderr
  match output.result with
  | .ok code => return code.toUInt32
  | .error cause =>
    IO.eprintln cause.message
    return 1
