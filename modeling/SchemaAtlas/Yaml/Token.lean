import SchemaAtlas.Yaml.Scalar

/-!
# Tokens

The units that a YAML text is made of: indicators, names, tags and scalars. Where a block collection
starts and ends by indentation alone there is a token too.
-/
namespace SchemaAtlas.Yaml

inductive Directive
  | version (major : Nat)
  /-- What a handle at the start of a tag stands for. -/
  | handle (name expansion : String)
  | unknown

inductive Token
  | directive (directive : Directive)
  | documentStart
  | documentEnd
  | blockSequenceStart
  | blockMappingStart
  | blockEnd
  | flowSequenceStart
  | flowSequenceEnd
  | flowMappingStart
  | flowMappingEnd
  | blockEntry
  | flowEntry
  | key
  | value
  | reference (name : String)
  | anchor (name : String)
  | tag (handle : Option String) (suffix : String)
  | scalar (text : String) (isPlain : Bool)

def isLatinOrDigit (c : Char) : Bool := c.isAlphanum

def isNameChar (c : Char) : Bool := isLatinOrDigit c || c = '-' || c = '_'

def isTagChar (c : Char) : Bool :=
  isLatinOrDigit c || "-;/?:@&=+$,_.!~*'()[]%".toList.contains c

namespace Source

/-- The characters from here on that belong to a name, and the rest. -/
def name (s : Source) : String × Source :=
  (Source.text (s.takeWhile fun p => isNameChar p.char), s.dropWhile fun p => isNameChar p.char)

/-- The name of an anchor or of a reference to one. -/
def anchorName (s : Source) : Except YamlError (String × Source) :=
  let (name, rest) := s.name
  let ends :=
    rest.atGap || (rest.head?.map fun p => "?:,]\x7d%@\x60".toList.contains p.char).getD false
  if name.isEmpty || !ends then .error .malformed else .ok (name, rest)

/-- The text that bytes encode. -/
def decodedBytes (bytes : List Nat) : Except YamlError (List Char) :=
  match String.fromUTF8? ⟨(bytes.map (·.toUInt8)).toArray⟩ with
  | some s => .ok s.toList
  | none => .error .malformed

/-- The characters of a tag, in which a percent sign escapes a byte. -/
def tagChars (done : List Char) (bytes : List Nat) : Source → Except YamlError (List Char × Source)
  | [] => (decodedBytes bytes).map fun cs => (done ++ cs, [])
  | p :: rest =>
    if p.char = '%' then
      match rest with
      | q :: r :: more =>
        match Text.radixValue? 16 [q.char, r.char] with
        | some byte => tagChars done (bytes ++ [byte]) more
        | none => .error .malformed
      | _ => .error .malformed
    else
      match decodedBytes bytes with
      | .error e => .error e
      | .ok cs =>
        if isTagChar p.char then tagChars (done ++ cs ++ [p.char]) [] rest
        else .ok (done ++ cs, p :: rest)

/-- The part of a tag that is not a handle; it is not empty. -/
def tagText (s : Source) : Except YamlError (String × Source) :=
  match tagChars [] [] s with
  | .ok ([], _) => .error .malformed
  | .ok (cs, rest) => .ok (String.ofList cs, rest)
  | .error e => .error e

/-- A handle: an exclamation mark, alone before a space or closed by another one behind a name. -/
def tagHandle : Source → Except YamlError (String × Source)
  | p :: rest =>
    if p.char != '!' then .error .malformed
    else if startsWith ' ' rest then .ok ("!", rest)
    else
      match name rest with
      | (text, q :: more) =>
        if q.char = '!' then .ok ("!" ++ text ++ "!", more) else .error .malformed
      | (_, []) => .error .malformed
  | [] => .error .malformed

/-- A tag, from its exclamation mark on. -/
def tagToken (s : Source) : Except YamlError (Token × Source) := do
  let behind := s.skip 1
  let (token, rest) ←
    if behind.startsWith '<' then
      let (text, rest) ← (behind.skip 1).tagText
      if !rest.startsWith '>' then throw .malformed
      pure (Token.tag none text, rest.skip 1)
    else if behind.atGap then pure (Token.tag none "!", behind)
    else
      let word := behind.takeWhile fun p => !(p.isSpace || p.isBreak)
      let (handle, rest) ←
        if word.any fun p => p.char = '!' then s.tagHandle else pure ("!", behind)
      let (text, rest) ← rest.tagText
      pure (Token.tag (some handle) text, rest)
  if rest.atSpace then return (token, rest) else throw .malformed

/-- A row of ASCII digits. -/
def number (s : Source) : Except YamlError (Nat × Source) :=
  match s.takeWhile fun p => p.char.isDigit with
  | [] => .error .malformed
  | digits => .ok (Text.digitsValue (chars digits), s.dropWhile fun p => p.char.isDigit)

/-- A directive, from its percent sign on, with the rest of its line. -/
def directive (s : Source) : Except YamlError (Directive × Source) := do
  let (name, rest) := (s.skip 1).name
  if name.isEmpty || !rest.atSpace then throw .malformed
  if name = "YAML" then
    let (major, rest) ← rest.skipSpaces.number
    if !rest.startsWith '.' then throw .malformed
    let (_, rest) ← Source.number (rest.skip 1)
    if !rest.atSpace then throw .malformed
    return (.version major, ← rest.skipIgnoredLine)
  else if name = "TAG" then
    let (handle, rest) ← rest.skipSpaces.tagHandle
    if !rest.startsWith ' ' then throw .malformed
    let (expansion, rest) ← rest.skipSpaces.tagText
    if !rest.atSpace then throw .malformed
    return (.handle handle expansion, ← rest.skipIgnoredLine)
  else return (.unknown, ← rest.skipLine.skipIgnoredLine)

end Source
end SchemaAtlas.Yaml
