import SchemaAtlas.Calendar
import SchemaAtlas.Text.Blank

/-!
# Source characters

The characters of a YAML text with their places. Every line break is one character here, whichever way
it was written: a line feed, or one of the two Unicode separators, which keep their own character.
-/
namespace SchemaAtlas.Yaml

/-- Why a YAML text has no value. -/
inductive YamlError
  /-- The text breaks a rule of the format, or its data cannot be represented. -/
  | malformed
  /-- An escape names a number that no character has. -/
  | escapeRange
  | calendar (error : CalendarError)
  /-- A text that is tagged as a point in time and is none. -/
  | notAMoment
  | notAnInteger (base : Nat) (shown : String)
  | notADouble (shown : String)
  | notABoolean (shown : String)
  /-- A text that is tagged as a number and has no digits. -/
  | emptyNumber
  /-- A value that is defined by itself. -/
  | endless
  deriving DecidableEq

namespace YamlError

/-- The message of an error; the faults of a malformed text are not told apart. -/
def message : YamlError → String
  | malformed => "The text is not valid YAML."
  | escapeRange => "chr() arg not in range(0x110000)"
  | calendar error => error.message
  | notAMoment => "'NoneType' object has no attribute 'groupdict'"
  | notAnInteger base shown =>
    "invalid literal for int() with base " ++ toString base ++ ": " ++ shown
  | notADouble shown => "could not convert string to float: " ++ shown
  | notABoolean shown => shown
  | emptyNumber => "string index out of range"
  | endless => "The value is defined by itself."

end YamlError

/-- A character and its place: its index, its line, and its column in the line. -/
structure Placed where
  char : Char
  index : Nat
  line : Nat
  column : Nat

abbrev Source := List Placed

def byteOrderMark : Char := '\ufeff'

/-- The characters that a text may hold. -/
def isAllowed (c : Char) : Bool :=
  Text.inRanges
    [(0x09, 0x0a), (0x0d, 0x0d), (0x20, 0x7e), (0x85, 0x85), (0xa0, 0xd7ff), (0xe000, 0xfffd),
     (0x10000, 0x10ffff)] c.toNat

def isSeparator (c : Char) : Bool := c = '\u2028' || c = '\u2029'

/-- Gives every character its place. A byte order mark takes no column. -/
def placeFrom (index line column : Nat) : List Char → Source
  | [] => []
  | '\r' :: '\n' :: rest => ⟨'\n', index, line, column⟩ :: placeFrom (index + 2) (line + 1) 0 rest
  | c :: rest =>
    if c = '\n' || c = '\r' || c = '\u0085' then
      ⟨'\n', index, line, column⟩ :: placeFrom (index + 1) (line + 1) 0 rest
    else if isSeparator c then ⟨c, index, line, column⟩ :: placeFrom (index + 1) (line + 1) 0 rest
    else
      ⟨c, index, line, column⟩ ::
        placeFrom (index + 1) line (if c = byteOrderMark then column else column + 1) rest

/-- The source of a text, without a byte order mark at its start. -/
def Source.ofText (text : String) : Except YamlError Source :=
  if text.toList.all isAllowed then
    match placeFrom 0 0 0 text.toList with
    | p :: rest => .ok (if p.char = byteOrderMark then rest else p :: rest)
    | [] => .ok []
  else .error .malformed

namespace Placed

def isBreak (p : Placed) : Bool := p.char = '\n' || isSeparator p.char

def isSpace (p : Placed) : Bool := p.char = ' '

def isTab (p : Placed) : Bool := p.char = '\t'

/-- A space, a tab or a line break. -/
def isGap (p : Placed) : Bool := p.isSpace || p.isTab || p.isBreak

end Placed

namespace Source

def startsWith (c : Char) : Source → Bool
  | p :: _ => p.char = c
  | [] => false

/-- Whether a word would end here. -/
def atGap : Source → Bool
  | p :: _ => p.isGap
  | [] => true

/-- Whether the line, or a word on it, would end here; a tab does not count. -/
def atSpace : Source → Bool
  | p :: _ => p.isSpace || p.isBreak
  | [] => true

def atLineEnd : Source → Bool
  | p :: _ => p.isBreak
  | [] => true

/-- The source behind the next characters. -/
def skip (count : Nat) (s : Source) : Source := s.drop count

def skipSpaces (s : Source) : Source := s.dropWhile (·.isSpace)

def skipLine (s : Source) : Source := s.dropWhile fun p => !p.isBreak

def skipBreak : Source → Source
  | p :: rest => if p.isBreak then rest else p :: rest
  | [] => []

def chars (s : Source) : List Char := s.map (·.char)

def text (s : Source) : String := String.ofList s.chars

/-- Whether a line starts here with three times the character and then ends its first word. -/
def isMarker (c : Char) : Source → Bool
  | p :: q :: r :: rest => p.column = 0 && p.char = c && q.char = c && r.char = c && atGap rest
  | _ => false

/-- Whether a document starts or ends here. -/
def isDocumentMarker (s : Source) : Bool := isMarker '-' s || isMarker '.' s

/-- Skips the rest of a line on which only spaces and a comment may stand. -/
def skipIgnoredLine (s : Source) : Except YamlError Source :=
  let rest := s.skipSpaces
  let rest := if rest.startsWith '#' then rest.skipLine else rest
  if rest.atLineEnd then .ok rest.skipBreak else .error .malformed

end Source
end SchemaAtlas.Yaml
