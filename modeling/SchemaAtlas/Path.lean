import SchemaAtlas.Text.Blank

/-!
# Paths

A path names a collection if it has an odd number of segments and a document if it has an even
number. A segment in braces is a wildcard where wildcards are allowed, otherwise a name like any
other.
-/
namespace SchemaAtlas

def pathSeparator : Char := '/'

inductive PathKind
  | collection | document
  deriving DecidableEq

def PathKind.name : PathKind → String
  | collection => "collection"
  | document => "document"

inductive SegmentKind
  | literal | wildcard
  deriving DecidableEq

def SegmentKind.name : SegmentKind → String
  | literal => "literal"
  | wildcard => "wildcard"

structure Segment where
  text : String
  kind : SegmentKind
  deriving DecidableEq

namespace Segment

def isWildcard (s : Segment) : Bool := s.kind = .wildcard

/-- A text in braces, which may be empty inside. -/
def isWildcardText (text : String) : Bool :=
  let cs := text.toList
  2 ≤ cs.length && cs.head? = some '\x7b' && cs.getLast? = some '\x7d'

def ofText (allowWildcards : Bool) (text : String) : Segment :=
  ⟨text, if allowWildcards && isWildcardText text then .wildcard else .literal⟩

end Segment

/-- A checked row of segments. -/
structure Path where
  segments : List Segment
  deriving DecidableEq

/-- Why something is not a path, or not a path of the right kind. -/
inductive PathError
  | segmentNotText (shown : String)
  | separatorInSegment (segment : String)
  | notAPath (shown : String)
  | noSegments
  | emptySegment (path : String)
  | kindMismatch (path : Path) (expected : PathKind)
  | emptyGroupName
  | separatorInGroupName (name : String)
  | undeclared (path : String)
  | noGenericDocument (path : String)
  deriving DecidableEq

/-- The position of a node in the tree: the texts joined by the separator. -/
def joinPath (texts : List String) : String := Text.joinWith "/" texts

namespace Path

def length (p : Path) : Nat := p.segments.length

def texts (p : Path) : List String := p.segments.map (·.text)

def text (p : Path) : String := joinPath p.texts

def hasWildcards (p : Path) : Bool := p.segments.any (·.isWildcard)

/-- The kind follows from the parity of the number of segments. -/
def kind (p : Path) : PathKind := if p.length % 2 = 1 then .collection else .document

/-- The path with the given segment texts, none of which may be empty. -/
def ofTexts (allowWildcards : Bool) (texts : List String) : Except PathError Path :=
  if texts.isEmpty then .error .noSegments
  else if texts.any (·.isEmpty) then .error (.emptySegment (joinPath texts))
  else .ok ⟨texts.map (Segment.ofText allowWildcards)⟩

/-- The path that a text writes, with its segments between separators. -/
def ofText (allowWildcards : Bool) (text : String) : Except PathError Path :=
  ofTexts allowWildcards (Text.split pathSeparator text)

def hasSeparator (text : String) : Bool := text.toList.contains pathSeparator

/-- The path itself if it is of the expected kind. -/
def require (expected : PathKind) (p : Path) : Except PathError Path :=
  if p.kind = expected then .ok p else .error (.kindMismatch p expected)

/-- The name of a collection group is one segment. -/
def checkGroupName (name : String) : Except PathError String :=
  if name.isEmpty then .error .emptyGroupName
  else if hasSeparator name then .error (.separatorInGroupName name)
  else .ok name

end Path

namespace PathError

/-- The number of segments that a path of a kind has. -/
def parity : PathKind → String
  | .collection => "odd"
  | .document => "even"

def message : PathError → String
  | segmentNotText shown => "Path segments must be strings, got " ++ shown ++ "."
  | separatorInSegment segment => "Path segment '" ++ segment ++ "' must not contain '/'."
  | notAPath shown => "Unsupported path value: " ++ shown
  | noSegments => "Path must contain at least one segment."
  | emptySegment path => "Path '" ++ path ++ "' has an empty segment."
  | kindMismatch path expected =>
    "'" ++ path.text ++ "' is a " ++ path.kind.name ++ " path with " ++ toString path.length ++
      " segments; a " ++ expected.name ++ " path needs an " ++ parity expected ++
      " number of segments."
  | emptyGroupName => "Collection group id must be a non-empty string."
  | separatorInGroupName name => "Collection group id '" ++ name ++ "' must not contain '/'."
  | undeclared path => "Path '" ++ path ++ "' is not declared in the schema."
  | noGenericDocument path =>
    "Collection '" ++ path ++ "' declares no generic document for generated document ids."

end PathError
end SchemaAtlas
