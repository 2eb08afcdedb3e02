import SchemaAtlas.Value.Basic

/-!
# Value graphs

Data in which one mapping or sequence may stand at several places, also inside itself. Its containers
are numbered nodes; a part is either a value of its own or the number of a node, and two parts are
the same container exactly if they have the same number.
-/
namespace SchemaAtlas

inductive Part
  | leaf (value : Value)
  | node (id : Nat)

inductive Node
  | mapping (entries : List (Value × Part))
  | sequence (kind : SequenceKind) (items : List Part)

structure Graph where
  nodes : Array Node
  root : Part

namespace Graph

/-- The entries of a part that is a mapping. -/
def entries? (g : Graph) : Part → Option (List (Value × Part))
  | .leaf _ => none
  | .node id =>
    match g.nodes[id]? with
    | some (.mapping entries) => some entries
    | _ => none

def isNull : Part → Bool
  | .leaf .null => true
  | _ => false

/-- The value that stands for a node met again inside itself. -/
def backReference (g : Graph) (id levels : Nat) : Value :=
  match g.nodes[id]? with
  | some (.sequence kind _) => .enclosingSequence kind levels
  | _ => .enclosingMapping levels

/--
The value of a part below the containers `ancestors`, the nearest first. The nodes on the way down
are distinct, so a bound above their number is never reached.
-/
def unfoldBelow (g : Graph) : (bound : Nat) → (ancestors : List Nat) → Part → Value
  | _, _, .leaf v => v
  | 0, _, .node _ => .null
  | bound + 1, ancestors, .node id =>
    match ancestors.idxOf? id with
    | some position => g.backReference id (position + 1)
    | none =>
      match g.nodes[id]? with
      | some (.mapping entries) =>
        .mapping (entries.map fun entry =>
          (entry.1, g.unfoldBelow bound (id :: ancestors) entry.2))
      | some (.sequence kind items) =>
        .sequence kind (items.map fun item => g.unfoldBelow bound (id :: ancestors) item)
      | none => .null

/-- The value of a part, with a back reference wherever a container holds itself. -/
def unfold (g : Graph) (part : Part) : Value := g.unfoldBelow (g.nodes.size + 1) [] part

/-- The value of the whole graph. -/
def value (g : Graph) : Value := g.unfold g.root

end Graph
end SchemaAtlas
