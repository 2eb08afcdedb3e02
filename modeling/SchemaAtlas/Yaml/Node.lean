import SchemaAtlas.Yaml.Lexer

/-!
# Nodes

The data of a YAML document before its scalars are given their types. Nodes are numbered; a reference
stands for the number of the node with its anchor, which may be a node around it.
-/
namespace SchemaAtlas.Yaml

/-- What a node says about its own type. -/
inductive NodeTag
  | named (name : String)
  /-- A scalar whose type is read off its text. -/
  | fromText
  /-- A text, a sequence or a mapping, as the node has it. -/
  | plain
  deriving DecidableEq

inductive NodeContent
  | scalar (text : String)
  | sequence (items : List Nat)
  | mapping (pairs : List (Nat × Nat))

structure YamlNode where
  tag : NodeTag
  content : NodeContent

/-- A document that is being read. -/
structure Reading where
  tokens : List Token
  /-- What stands in the text behind the tokens, if it is not its end. -/
  fault : Option YamlError
  nodes : Array YamlNode
  anchors : List (String × Nat)
  /-- What the handles of tags stand for. -/
  handles : List (String × String)

abbrev Reader := StateT Reading (Except YamlError)

namespace Reader

/-- The next token, which stays; nothing at the end of the text. -/
def peek? : Reader (Option Token) := do
  let r ← get
  match r.tokens, r.fault with
  | token :: _, _ => return some token
  | [], some e => throw e
  | [], none => return none

def skip : Reader Unit := modify fun r => { r with tokens := r.tokens.drop 1 }

def malformed : Reader α := throw .malformed

/-- Adds a node. -/
def addNode (tag : NodeTag) (content : NodeContent) : Reader Nat :=
  modifyGet fun r => (r.nodes.size, { r with nodes := r.nodes.push ⟨tag, content⟩ })

def setContent (id : Nat) (content : NodeContent) : Reader Unit :=
  modify fun r => { r with nodes := r.nodes.modify id fun node => { node with content } }

def emptyNode : Reader Nat := addNode .fromText (.scalar "")

/-- Gives an anchor to a node; no anchor is given twice. -/
def setAnchor (id : Nat) : Option String → Reader Unit
  | none => return ()
  | some name => do
    let r ← get
    if (r.anchors.lookup name).isSome then malformed
    else set { r with anchors := (name, id) :: r.anchors }

def referenced (name : String) : Reader Nat := do
  match (← get).anchors.lookup name with
  | some id => return id
  | none => malformed

/-- The name of a tag, with its handle replaced by what that stands for. -/
def tagName (handle : Option String) (suffix : String) : Reader String := do
  match handle with
  | none => return suffix
  | some handle =>
    match (← get).handles.lookup handle with
    | some expansion => return expansion ++ suffix
    | none => malformed

/-- The anchor and the tag before a node, in either order. -/
def properties : Reader (Option String × Option String) := do
  match ← peek? with
  | some (.anchor name) =>
    skip
    match ← peek? with
    | some (.tag handle suffix) =>
      skip
      return (some name, some (← tagName handle suffix))
    | _ => return (some name, none)
  | some (.tag handle suffix) =>
    skip
    let anchor ← do
      match ← peek? with
      | some (.anchor name) =>
        skip
        pure (some name)
      | _ => pure none
    return (anchor, some (← tagName handle suffix))
  | _ => return (none, none)

/-- The tag of a collection, or of a scalar, where a lone exclamation mark is no type. -/
def nodeTag (isScalar isPlain : Bool) : Option String → NodeTag
  | none => if isScalar && isPlain then .fromText else .plain
  | some "!" => if isScalar then .fromText else .plain
  | some name => .named name

/-- Where a node may stand decides which collections without brackets it can be. -/
inductive Position
  | flow
  | block
  /-- Behind a key, where the entries of a sequence need no indentation. -/
  | behindKey
  deriving DecidableEq

def endsBlockEntry : Option Token → Bool
  | some .blockEntry | some .blockEnd => true
  | _ => false

def endsIndentless : Option Token → Bool
  | some .blockEntry | some .key | some .value | some .blockEnd => true
  | _ => false

def endsBlockPair : Option Token → Bool
  | some .key | some .value | some .blockEnd => true
  | _ => false

def endsFlowKey (close : Option Token → Bool) : Option Token → Bool
  | some .value | some .flowEntry => true
  | token => close token

def endsFlowValue (close : Option Token → Bool) : Option Token → Bool
  | some .flowEntry => true
  | token => close token

def closesSequence : Option Token → Bool
  | some .flowSequenceEnd => true
  | _ => false

def closesMapping : Option Token → Bool
  | some .flowMappingEnd => true
  | _ => false

mutual

/--
The node that starts at the next token. Every token is used at most once and leads to a few calls, so
a bound of some calls for each token is never reached.
-/
def node (bound : Nat) (position : Position) : Reader Nat := do
  match bound with
  | 0 => malformed
  | bound + 1 =>
    if let some (.reference name) := ← peek? then
      skip
      return ← referenced name
    let (anchor, tag) ← properties
    match ← peek? with
    | some (.scalar text isPlain) =>
      let id ← addNode (nodeTag true isPlain tag) (.scalar text)
      setAnchor id anchor
      skip
      return id
    | some .flowSequenceStart =>
      collection anchor tag (.sequence []) fun id => do
        skip
        setContent id (.sequence (← flowItems bound true))
    | some .flowMappingStart =>
      collection anchor tag (.mapping []) fun id => do
        skip
        setContent id (.mapping (← flowPairs bound true))
    | some .blockEntry =>
      if position = .behindKey then
        collection anchor tag (.sequence []) fun id => do
          setContent id (.sequence (← indentlessItems bound))
      else bare anchor tag
    | some .blockSequenceStart =>
      if position = .flow then bare anchor tag
      else
        collection anchor tag (.sequence []) fun id => do
          skip
          setContent id (.sequence (← blockItems bound))
    | some .blockMappingStart =>
      if position = .flow then bare anchor tag
      else
        collection anchor tag (.mapping []) fun id => do
          skip
          setContent id (.mapping (← blockPairs bound))
    | _ => bare anchor tag
where
  /-- A node of nothing but an anchor or a tag is an empty scalar. -/
  bare (anchor tag : Option String) : Reader Nat := do
    if anchor.isNone && tag.isNone then malformed
    let id ← addNode (nodeTag true true tag) (.scalar "")
    setAnchor id anchor
    return id
  /-- A collection has its number and its anchor before its items, which may refer to it. -/
  collection (anchor tag : Option String) (content : NodeContent) (fill : Nat → Reader Unit) :
      Reader Nat := do
    let id ← addNode (nodeTag false false tag) content
    setAnchor id anchor
    fill id
    return id

/-- A node, or an empty one if the next token cannot start any. -/
def nodeUnless (bound : Nat) (ends : Option Token → Bool) (position : Position) : Reader Nat := do
  match bound with
  | 0 => malformed
  | bound + 1 => if ends (← peek?) then emptyNode else node bound position

def blockItems (bound : Nat) : Reader (List Nat) := do
  match bound with
  | 0 => malformed
  | bound + 1 =>
    match ← peek? with
    | some .blockEntry =>
      skip
      let item ← nodeUnless bound endsBlockEntry .block
      return item :: (← blockItems bound)
    | some .blockEnd =>
      skip
      return []
    | _ => malformed

def indentlessItems (bound : Nat) : Reader (List Nat) := do
  match bound with
  | 0 => malformed
  | bound + 1 =>
    match ← peek? with
    | some .blockEntry =>
      skip
      let item ← nodeUnless bound endsIndentless .block
      return item :: (← indentlessItems bound)
    | _ => return []

/-- The value behind a key; without a colon it is empty. -/
def valueUnless (bound : Nat) (ends : Option Token → Bool) (position : Position) :
    Reader Nat := do
  match bound with
  | 0 => malformed
  | bound + 1 =>
    match ← peek? with
    | some .value =>
      skip
      nodeUnless bound ends position
    | _ => emptyNode

def blockPairs (bound : Nat) : Reader (List (Nat × Nat)) := do
  match bound with
  | 0 => malformed
  | bound + 1 =>
    match ← peek? with
    | some .key =>
      skip
      let key ← nodeUnless bound endsBlockPair .behindKey
      let value ← valueUnless bound endsBlockPair .behindKey
      return (key, value) :: (← blockPairs bound)
    | some .blockEnd =>
      skip
      return []
    | _ => malformed

/-- Skips the comma between two entries; before the first one there is none. -/
def comma (isFirst : Bool) : Reader Unit := do
  if !isFirst then
    match ← peek? with
    | some .flowEntry => skip
    | _ => malformed

def flowItems (bound : Nat) (isFirst : Bool) : Reader (List Nat) := do
  match bound with
  | 0 => malformed
  | bound + 1 =>
    if closesSequence (← peek?) then
      skip
      return []
    comma isFirst
    match ← peek? with
    | some .flowSequenceEnd =>
      skip
      return []
    | some .key =>
      let id ← addNode .plain (.mapping [])
      skip
      let key ← nodeUnless bound (endsFlowKey closesSequence) .flow
      let value ← valueUnless bound (endsFlowValue closesSequence) .flow
      setContent id (.mapping [(key, value)])
      return id :: (← flowItems bound false)
    | _ =>
      let item ← node bound .flow
      return item :: (← flowItems bound false)

def flowPairs (bound : Nat) (isFirst : Bool) : Reader (List (Nat × Nat)) := do
  match bound with
  | 0 => malformed
  | bound + 1 =>
    if closesMapping (← peek?) then
      skip
      return []
    comma isFirst
    match ← peek? with
    | some .flowMappingEnd =>
      skip
      return []
    | some .key =>
      skip
      let key ← nodeUnless bound (endsFlowKey closesMapping) .flow
      let value ← valueUnless bound (endsFlowValue closesMapping) .flow
      return (key, value) :: (← flowPairs bound false)
    | _ =>
      let key ← node bound .flow
      let value ← emptyNode
      return (key, value) :: (← flowPairs bound false)

end

/-- The handles that need no directive. -/
def standardHandles : List (String × String) := [("!", "!"), ("!!", "tag:yaml.org,2002:")]

/-- The directives before a document: at most one version, which has to be one of the format's first. -/
def directives : (bound : Nat) → (hasVersion : Bool) → Reader Unit
  | 0, _ => malformed
  | bound + 1, hasVersion => do
    match ← peek? with
    | some (.directive (.version major)) =>
      if hasVersion || major != 1 then malformed
      skip
      directives bound true
    | some (.directive (.handle name expansion)) =>
      let r ← get
      if (r.handles.lookup name).isSome then malformed
      set { r with handles := (name, expansion) :: r.handles }
      skip
      directives bound hasVersion
    | some (.directive .unknown) =>
      skip
      directives bound hasVersion
    | _ => modify fun r => { r with handles := r.handles ++ standardHandles }

def skipDocumentEnds : (bound : Nat) → Reader Unit
  | 0 => malformed
  | bound + 1 => do
    if let some .documentEnd := ← peek? then
      skip
      skipDocumentEnds bound

/-- The root of the document that starts with directives or a marker. -/
def explicitDocument (bound : Nat) : Reader Nat := do
  directives bound false
  match ← peek? with
  | some .documentStart =>
    skip
    match ← peek? with
    | some (.directive _) | some .documentStart | some .documentEnd | none => emptyNode
    | _ => node bound .block
  | _ => malformed

/-- The root of the only document, if there is one. -/
def document (bound : Nat) : Reader (Option Nat) := do
  let root ←
    match ← peek? with
    | none => return none
    | some (.directive _) | some .documentStart => explicitDocument bound
    | _ =>
      modify fun r => { r with handles := standardHandles }
      node bound .block
  skipDocumentEnds bound
  match ← peek? with
  | none => return some root
  | some _ => malformed

end Reader

/-- The nodes of a document, and its root; an empty text has none. -/
structure Document where
  nodes : Array YamlNode
  root : Option Nat

/-- The document that a source is. -/
def Source.document (s : Source) : Except YamlError Document := do
  let (tokens, fault) := s.tokens
  let (root, reading) ←
    (Reader.document (3 * tokens.length + 3)).run ⟨tokens, fault, #[], [], []⟩
  return ⟨reading.nodes, root⟩

end SchemaAtlas.Yaml
