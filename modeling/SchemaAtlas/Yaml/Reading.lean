import SchemaAtlas.Yaml.Type
import SchemaAtlas.Value.Graph

/-!
# Values of documents

The graph of values that a document stands for. Every container of the document is the node of the
graph with its number, so shared and cyclic data keep their shape. Containers are filled in the order
in which they are met, and the first fault that shows then is the document's.

This is one way to read data. The program takes it as an argument, and what is known of configurations
and of runs does not rest on it.
-/
namespace SchemaAtlas.Yaml

/-- What a node of a document has turned out to be. -/
inductive Built
  | unmet
  | scalar (value : Value)
  /-- A container that is still to be filled. -/
  | met
  | sequence (items : List Nat)
  | mapping (entries : List (Value × Nat))
  | set (members : List Value)
  | pairs (pairs : List (Nat × Nat))

structure Building where
  nodes : Array YamlNode
  built : Array Built
  /-- The containers to be filled, in order. -/
  waiting : List Nat

abbrev Builder := StateT Building (Except YamlError)

namespace Builder

def malformed : Builder α := throw .malformed

def nodeAt (id : Nat) : Builder YamlNode := do
  return ((← get).nodes[id]?).getD ⟨.fromText, .scalar ""⟩

def setPairs (id : Nat) (pairs : List (Nat × Nat)) : Builder Unit :=
  modify fun b => { b with nodes := b.nodes.modify id fun node => ⟨node.tag, .mapping pairs⟩ }

def record (id : Nat) (built : Built) : Builder Unit :=
  modify fun b => { b with built := b.built.modify id fun _ => built }

def builtAt (id : Nat) : Builder Built := do
  return ((← get).built[id]?).getD .unmet

/-- The text of a scalar; a mapping has the text of the value behind its value key. -/
def scalarText : (bound : Nat) → (id : Nat) → Builder String
  | 0, _ => throw .endless
  | bound + 1, id => do
    match (← nodeAt id).content with
    | .scalar text => return text
    | .sequence _ => malformed
    | .mapping pairs =>
      match ← pairs.findM? fun pair => do return (← nodeAt pair.1).type = .value with
      | some pair => scalarText bound pair.2
      | none => malformed

/-- The pairs of a node that is a mapping. -/
def pairsOf (id : Nat) : Builder (List (Nat × Nat)) := do
  match (← nodeAt id).content with
  | .mapping pairs => return pairs
  | _ => malformed

/-- Meets a node: a scalar gets its value at once, a container waits to be filled. -/
def meet (id : Nat) : Builder Unit := do
  if let .unmet := ← builtAt id then
    let type := (← nodeAt id).type
    match type with
    | .sequence | .mapping | .set | .pairs =>
      record id .met
      modify fun b => { b with waiting := b.waiting ++ [id] }
    | .merge | .value | .unknown => malformed
    | _ =>
      let text ← scalarText ((← get).nodes.size + 1) id
      match scalarValue type text with
      | .ok value => record id (.scalar value)
      | .error e => throw e

/-- The value of a node that is a key; containers cannot be keys. -/
def keyValue (id : Nat) : Builder Value := do
  meet id
  match ← builtAt id with
  | .scalar value => return value
  | _ => malformed

/-- Splits pairs at the first key of a type. -/
def splitAtType (type : NodeType) :
    List (Nat × Nat) → Builder (Option (List (Nat × Nat) × Nat × List (Nat × Nat)))
  | [] => return none
  | (key, value) :: rest => do
    if (← nodeAt key).type = type then return some ([], value, rest)
    else
      match ← splitAtType type rest with
      | some (before, found, after) => return some ((key, value) :: before, found, after)
      | none => return none

/-- Makes the value keys of a mapping plain texts. -/
def settleValueKeys (pairs : List (Nat × Nat)) : Builder Unit :=
  pairs.forM fun pair => do
    let node ← nodeAt pair.1
    if node.type = .value then
      modify fun b =>
        { b with nodes := b.nodes.modify pair.1 fun node => ⟨.plain, node.content⟩ }

/--
Replaces the merge keys of a mapping by the pairs of what they name, which come first; of several
mappings the later ones come before the earlier ones. Every step takes away a merge key, so a bound
above the number of merge keys is never reached.
-/
def takeIn : (bound : Nat) → (id : Nat) → Builder Unit
  | 0, _ => throw .endless
  | bound + 1, id => do
    let pairs ← pairsOf id
    match ← splitAtType .merge pairs with
    | none => settleValueKeys pairs
    | some (before, source, after) =>
      setPairs id (before ++ after)
      let gained ←
        match (← nodeAt source).content with
        | .mapping _ =>
          takeIn bound source
          pairsOf source
        | .sequence items =>
          let lists ← items.mapM fun item => do
            takeIn bound item
            pairsOf item
          pure lists.reverse.flatten
        | .scalar _ => malformed
      takeIn bound id
      setPairs id (gained ++ (← pairsOf id))

/-- The number of merge keys in a document. -/
def mergeCount : Builder Nat := do
  let b ← get
  let keys := b.nodes.toList.flatMap fun node =>
    match node.content with
    | .mapping pairs => pairs.map (·.1)
    | _ => []
  return (← keys.filterM fun key => do return (← nodeAt key).type = .merge).length

/-- The entries of a mapping: of a repeated key the first place and the last value count. -/
def entries (bound id : Nat) : Builder (List (Value × Nat)) := do
  let _ ← pairsOf id
  takeIn bound id
  (← pairsOf id).foldlM (fun entries pair => do
    let key ← keyValue pair.1
    meet pair.2
    return Value.putEntry key pair.2 entries) []

/-- The only pair of a mapping. -/
def onlyPair (id : Nat) : Builder (Nat × Nat) := do
  match ← pairsOf id with
  | [pair] =>
    meet pair.1
    meet pair.2
    return pair
  | _ => malformed

/-- Fills a container. -/
def fill (bound id : Nat) : Builder Unit := do
  let node ← nodeAt id
  match node.type with
  | .mapping => record id (.mapping (← entries bound id))
  | .set => record id (.set ((← entries bound id).map (·.1)))
  | .sequence =>
    match node.content with
    | .sequence items =>
      items.forM meet
      record id (.sequence items)
    | _ => malformed
  | _ =>
    match node.content with
    | .sequence items => record id (.pairs (← items.mapM onlyPair))
    | _ => malformed

/-- Fills the containers that wait; each node waits at most once. -/
def fillAll (mergeBound : Nat) : (bound : Nat) → Builder Unit
  | 0 => return ()
  | bound + 1 => do
    match (← get).waiting with
    | [] => return ()
    | id :: waiting =>
      modify fun b => { b with waiting }
      fill mergeBound id
      fillAll mergeBound bound

/-- What every node is, from the root on. -/
def build (root : Nat) : Builder Unit := do
  meet root
  fillAll ((← mergeCount) + 1) ((← get).nodes.size + 1)

end Builder

namespace Building

/-- The part of the graph that a node is. -/
def partOf (b : Building) (id : Nat) : Part :=
  match b.built[id]? with
  | some (.scalar value) => .leaf value
  | some (.set members) => .leaf (.set members)
  | _ => .node id

/--
The graph of a built document. The numbers of scalars stand for empty containers that nothing refers
to, and pairs become rows of two behind all nodes of the document.
-/
def graph (b : Building) (root : Nat) : Graph :=
  let (nodes, rows) :=
    b.built.foldl
      (fun (nodes, rows) built =>
        match built with
        | .sequence items => (nodes.push (.sequence .list (items.map b.partOf)), rows)
        | .mapping entries =>
          (nodes.push (.mapping (entries.map fun entry => (entry.1, b.partOf entry.2))), rows)
        | .pairs pairs =>
          let first := b.nodes.size + rows.size
          let ids := (List.range pairs.length).map fun i => Part.node (first + i)
          (nodes.push (.sequence .list ids),
            rows ++ (pairs.map fun pair =>
              Node.sequence .tuple [b.partOf pair.1, b.partOf pair.2]).toArray)
        | _ => (nodes.push (.mapping []), rows))
      ((#[], #[]) : Array Node × Array Node)
  ⟨nodes ++ rows, b.partOf root⟩

end Building

/-- What is taken for the data of a text: a graph of values, or a fault. -/
abbrev Parser := String → Except YamlError Graph

/-- The graph of values that a text stands for; an empty text stands for nothing. -/
def read (text : String) : Except YamlError Graph := do
  let document ← (← Source.ofText text).document
  match document.root with
  | none => return ⟨#[], .leaf .null⟩
  | some root =>
    let (_, building) ← (Builder.build root).run
      ⟨document.nodes, Array.replicate document.nodes.size .unmet, []⟩
    return building.graph root

end SchemaAtlas.Yaml
