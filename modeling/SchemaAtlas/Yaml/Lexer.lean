import SchemaAtlas.Yaml.Token

/-!
# Reading tokens

A lexer goes through a source and keeps track of indentation. Whether a scalar or a flow collection is
a key of a mapping shows only at the colon behind it, which must stand on the same line and not too far
away; so the lexer remembers where such a key would start, and puts the token for it there when the
colon comes.
-/
namespace SchemaAtlas.Yaml

/-- A place where a key may have started. -/
structure PossibleKey where
  /-- The number of tokens before it. -/
  position : Nat
  /-- Whether nothing but a key can stand there. -/
  isRequired : Bool
  place : Placed

structure Lexer where
  rest : Source
  /-- The tokens so far, the latest first. -/
  tokens : List Token
  /-- The columns of the open block collections, the innermost first. -/
  blocks : List Nat
  /-- Whether a key may start at the next token. -/
  isKeyAllowed : Bool
  /-- The key that may have started in the innermost open flow collection, or outside all of them. -/
  key : Option PossibleKey
  /-- The same for each of the collections around, the nearest first. -/
  outerKeys : List (Option PossibleKey)

/-- The greatest distance between the start of a key and its colon. -/
def keyLimit : Nat := 1024

namespace Lexer

def start (source : Source) : Lexer := ⟨source, [], [], true, none, []⟩

def inFlow (l : Lexer) : Bool := !l.outerKeys.isEmpty

def emit (l : Lexer) (token : Token) : Lexer := { l with tokens := token :: l.tokens }

/-- Skips spaces, comments and line breaks. Outside flow collections a new line may start a key. -/
def skipFrom (inFlow inComment isKeyAllowed : Bool) : Source → Bool × Source
  | [] => (isKeyAllowed, [])
  | p :: rest =>
    if p.isBreak then skipFrom inFlow false (isKeyAllowed || !inFlow) rest
    else if inComment || p.isSpace then skipFrom inFlow inComment isKeyAllowed rest
    else if p.char = '#' then skipFrom inFlow true isKeyAllowed rest
    else (isKeyAllowed, p :: rest)

def skipToToken (l : Lexer) : Lexer :=
  let (isKeyAllowed, rest) := skipFrom l.inFlow false l.isKeyAllowed l.rest
  { l with isKeyAllowed, rest }

/-- Gives up a key that its colon can no longer follow. -/
def withoutStale (here : Placed) : Option PossibleKey → Except YamlError (Option PossibleKey)
  | none => .ok none
  | some key =>
    if key.place.line = here.line && here.index - key.place.index ≤ keyLimit then .ok (some key)
    else if key.isRequired then .error .malformed
    else .ok none

def dropStaleKeys (l : Lexer) (here : Placed) : Except YamlError Lexer := do
  let key ← withoutStale here l.key
  let outerKeys ← l.outerKeys.mapM (withoutStale here)
  return { l with key, outerKeys }

/-- Gives up the innermost key. -/
def dropKey (l : Lexer) : Except YamlError Lexer :=
  match l.key with
  | some key => if key.isRequired then .error .malformed else .ok { l with key := none }
  | none => .ok l

/-- Remembers that a key may start here. -/
def rememberKey (l : Lexer) (here : Placed) : Except YamlError Lexer :=
  if l.isKeyAllowed then do
    let l ← l.dropKey
    let isRequired := !l.inFlow && l.blocks.head? = some here.column
    return { l with key := some ⟨l.tokens.length, isRequired, here⟩ }
  else .ok l

/-- Closes the block collections that are indented further than a column. -/
def closeBlocks (isDeeper : Nat → Bool) (l : Lexer) : Lexer :=
  if l.inFlow then l
  else
    { l with
      tokens := List.replicate (l.blocks.takeWhile isDeeper).length .blockEnd ++ l.tokens
      blocks := l.blocks.dropWhile isDeeper }

/-- Whether a column is indented further than all open block collections. -/
def isDeeper (l : Lexer) (column : Nat) : Bool :=
  match l.blocks with
  | [] => true
  | block :: _ => block < column

/-- Opens a block collection at a column, if there is none. -/
def openBlock (l : Lexer) (column : Nat) (token : Token) : Lexer :=
  if l.isDeeper column then { l.emit token with blocks := column :: l.blocks } else l

/-- Puts tokens in where a key started. -/
def insertAt (l : Lexer) (position : Nat) (tokens : List Token) : Lexer :=
  let (later, earlier) := l.tokens.splitAt (l.tokens.length - position)
  { l with tokens := later ++ tokens.reverse ++ earlier }

/-! ## One token -/

/-- A token that closes all blocks: a directive or a document marker. -/
def outside (l : Lexer) (token : Token) (rest : Source) : Except YamlError Lexer := do
  let l ← (l.closeBlocks fun _ => true).dropKey
  return { l.emit token with isKeyAllowed := false, rest }

def openFlow (l : Lexer) (here : Placed) (token : Token) (rest : Source) :
    Except YamlError Lexer := do
  let l ← l.rememberKey here
  return { l.emit token with
    key := none, outerKeys := l.key :: l.outerKeys, isKeyAllowed := true, rest }

def closeFlow (l : Lexer) (token : Token) (rest : Source) : Except YamlError Lexer := do
  let l ← l.dropKey
  match l.outerKeys with
  | [] => throw .malformed
  | key :: outerKeys => return { l.emit token with key, outerKeys, isKeyAllowed := false, rest }

def flowEntry (l : Lexer) (rest : Source) : Except YamlError Lexer := do
  let l ← l.dropKey
  return { l.emit .flowEntry with isKeyAllowed := true, rest }

def blockEntry (l : Lexer) (here : Placed) (rest : Source) : Except YamlError Lexer := do
  if !l.inFlow && !l.isKeyAllowed then throw .malformed
  let l := if l.inFlow then l else l.openBlock here.column .blockSequenceStart
  let l ← l.dropKey
  return { l.emit .blockEntry with isKeyAllowed := true, rest }

/-- The question mark before a key. -/
def explicitKey (l : Lexer) (here : Placed) (rest : Source) : Except YamlError Lexer := do
  if !l.inFlow && !l.isKeyAllowed then throw .malformed
  let l := if l.inFlow then l else l.openBlock here.column .blockMappingStart
  let l ← l.dropKey
  return { l.emit .key with isKeyAllowed := !l.inFlow, rest }

/-- The colon before a value; it settles that a possible key is one. -/
def value (l : Lexer) (here : Placed) (rest : Source) : Except YamlError Lexer := do
  match l.key with
  | some key =>
    let isNew := !l.inFlow && l.isDeeper key.place.column
    let blocks := if isNew then key.place.column :: l.blocks else l.blocks
    let l := l.insertAt key.position (if isNew then [.blockMappingStart, .key] else [.key])
    return { l.emit .value with key := none, blocks, isKeyAllowed := false, rest }
  | none =>
    if !l.inFlow && !l.isKeyAllowed then throw .malformed
    let l := if l.inFlow then l else l.openBlock here.column .blockMappingStart
    return { l.emit .value with isKeyAllowed := !l.inFlow, rest }

/-- A token with which a key may start. -/
def content (l : Lexer) (here : Placed) (token : Token) (rest : Source) :
    Except YamlError Lexer := do
  let l ← l.rememberKey here
  return { l.emit token with isKeyAllowed := false, rest }

def blockContent (l : Lexer) (folded : Bool) (rest : Source) : Except YamlError Lexer := do
  let l ← l.dropKey
  let scalar ← blockScalar folded l.blocks.head? rest
  return { l.emit (.scalar scalar.text false) with isKeyAllowed := true, rest := scalar.rest }

def plainContent (l : Lexer) (here : Placed) (rest : Source) : Except YamlError Lexer := do
  let l ← l.rememberKey here
  let indent := (l.blocks.head?.map (· + 1)).getD 0
  let (scalar, gap) := plainFrom l.inFlow indent [here.char] .none rest
  return { l.emit (.scalar scalar.text true) with
    isKeyAllowed := gap.hasBreak, rest := scalar.rest }

/-- Whether a plain scalar starts with a character. -/
def startsPlain (inFlow : Bool) (c : Char) (rest : Source) : Bool :=
  !"\t-?:,[]\x7b\x7d#&*!|>\x27\x22%@\x60".toList.contains c ||
    (!rest.atGap && (c = '-' || (!inFlow && (c = '?' || c = ':'))))

/-- Reads the token that starts at a character. -/
def readToken (l : Lexer) (here : Placed) (rest : Source) : Except YamlError Lexer :=
  let c := here.char
  if c = '%' && here.column = 0 then
    match Source.directive (here :: rest) with
    | .ok (directive, rest) => l.outside (.directive directive) rest
    | .error e => .error e
  else if Source.isMarker '-' (here :: rest) then l.outside .documentStart (rest.drop 2)
  else if Source.isMarker '.' (here :: rest) then l.outside .documentEnd (rest.drop 2)
  else if c = '[' then l.openFlow here .flowSequenceStart rest
  else if c = '\x7b' then l.openFlow here .flowMappingStart rest
  else if c = ']' then l.closeFlow .flowSequenceEnd rest
  else if c = '\x7d' then l.closeFlow .flowMappingEnd rest
  else if c = ',' then l.flowEntry rest
  else if c = '-' && rest.atGap then l.blockEntry here rest
  else if c = '?' && (l.inFlow || rest.atGap) then l.explicitKey here rest
  else if c = ':' && (l.inFlow || rest.atGap) then l.value here rest
  else if c = '*' || c = '&' then
    match rest.anchorName with
    | .ok (name, rest) => l.content here (if c = '*' then .reference name else .anchor name) rest
    | .error e => .error e
  else if c = '!' then
    match Source.tagToken (here :: rest) with
    | .ok (token, rest) => l.content here token rest
    | .error e => .error e
  else if (c = '|' || c = '>') && !l.inFlow then l.blockContent (c = '>') rest
  else if c = '\x27' || c = '"' then
    match quotedFrom c [] .none rest with
    | .ok scalar => l.content here (.scalar scalar.text false) scalar.rest
    | .error e => .error e
  else if startsPlain l.inFlow c rest then l.plainContent here rest
  else .error .malformed

/-- Ends the source: a key that has to be there may not be missing, and all blocks are closed. -/
def finish (l : Lexer) : Except YamlError Lexer := (l.closeBlocks fun _ => true).dropKey

/-- The tokens up to a fault. Those behind a place where a key may have started are not settled. -/
def settled (l : Lexer) : List Token :=
  let keys := (l.key :: l.outerKeys).filterMap fun key => key.map (·.position)
  l.tokens.reverse.take (keys.foldl min l.tokens.length)

/--
The tokens of a source, and the fault that ends them if there is one. Every token takes a character,
so a bound above the number of characters is never reached.
-/
def run : (bound : Nat) → Lexer → List Token × Option YamlError
  | 0, l => (l.settled, some .malformed)
  | bound + 1, l =>
    let l := l.skipToToken
    match l.rest with
    | [] =>
      match l.finish with
      | .ok l => (l.tokens.reverse, none)
      | .error e => (l.settled, some e)
    | here :: rest =>
      match l.dropStaleKeys here with
      | .error e => (l.settled, some e)
      | .ok l =>
        let l := l.closeBlocks (here.column < ·)
        match l.readToken here rest with
        | .ok l => run bound l
        | .error e => (l.settled, some e)

end Lexer

/-- The tokens of a source, up to its first fault. -/
def Source.tokens (s : Source) : List Token × Option YamlError := (Lexer.start s).run (s.length + 1)

end SchemaAtlas.Yaml
