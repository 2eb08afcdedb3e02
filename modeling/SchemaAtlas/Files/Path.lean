import SchemaAtlas.Text.Blank

/-!
# File paths

Paths as they are written: a root or none, and names with separators between them. Empty names and
single dots are dropped when a path is read; a step up to the parent is kept, for it depends on the
files what it leads to.
-/
namespace SchemaAtlas

structure FilePath where
  /-- The separators in front: none for a relative path; exactly two are not the same as one. -/
  root : String
  names : List String
  deriving DecidableEq

namespace FilePath

def ofText (text : String) : FilePath :=
  let names := (Text.split '/' text).filter fun name => !name.isEmpty && name != "."
  let slashes := (text.toList.takeWhile (· = '/')).length
  ⟨if slashes = 0 then "" else if slashes = 2 then "//" else "/", names⟩

def text (p : FilePath) : String :=
  if p.root.isEmpty && p.names.isEmpty then "." else p.root ++ Text.joinWith "/" p.names

def isAbsolute (p : FilePath) : Bool := !p.root.isEmpty

/-- The path without its last name. -/
def parent (p : FilePath) : FilePath := ⟨p.root, p.names.dropLast⟩

/-- The path that leads on from another one; an absolute path leads there from anywhere. -/
def below (base p : FilePath) : FilePath :=
  if p.isAbsolute then p else ⟨base.root, base.names ++ p.names⟩

def parentName : String := ".."

/-- The names that are left when every step up takes away the name before it. -/
def normalNames (names : List String) : List String :=
  names.foldl (fun done name => if name = parentName then done.dropLast else done ++ [name]) []

/-- The absolute path without steps up, seen from a directory. -/
def resolvedFrom (directory : List String) (p : FilePath) : FilePath :=
  ⟨"/", normalNames (if p.isAbsolute then p.names else directory ++ p.names)⟩

def hasNull (p : FilePath) : Bool := p.names.any fun name => name.toList.contains '\x00'

end FilePath
end SchemaAtlas
