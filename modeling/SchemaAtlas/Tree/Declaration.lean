import SchemaAtlas.Tree.Basic
import SchemaAtlas.Value.Declared
import SchemaAtlas.Value.Graph

/-!
# Trees from declarations

A declaration is a graph of mappings: the root maps collection names to collections, a collection
maps keys to documents, and a document maps names to collections, save for the schema key, which holds
its fields. Every mapping becomes at most one collection and one document of the tree, under the
number it has in the graph, so shared mappings are shared nodes and cycles are kept.

The parts are checked depth first in the order of their keys, each mapping once in each role, and the
first fault is reported.
-/
namespace SchemaAtlas

/-- The reserved keys of a declaration. A key that is not set equals no text. -/
structure ReservedKeys where
  schema : Option String
  generic : Option String
  deriving DecidableEq

def ReservedKeys.default : ReservedKeys := ⟨some "$schema", some "*"⟩

inductive NodeRole
  | collection | document
  deriving DecidableEq

def NodeRole.name : NodeRole → String
  | collection => "collection"
  | document => "document"

/-- Why a graph declares no tree. A location lists the names from the root. -/
inductive DeclarationError
  | rootNotMapping
  | collectionNotMapping (location : List String)
  | documentNotMapping (location : List String) (keys : ReservedKeys)
  | schemaNotMapping (location : List String) (keys : ReservedKeys)
  | fieldName (location : List String)
  | fieldType (name : String) (location : List String) (error : DeclaredTypeError)
  | nodeName (role : NodeRole) (shown : String) (location : List String)
  | separatorInName (role : NodeRole) (name : String) (location : List String)
  deriving DecidableEq

namespace ReservedKeys

/-- The schema key as messages give it. -/
def schemaText (keys : ReservedKeys) : String := keys.schema.getD "None"

/-- Whether a key of a document is the schema key. -/
def isSchemaKey (keys : ReservedKeys) (key : Value) : Bool :=
  match keys.schema, key with
  | some name, .text other => name == other
  | none, .null => true
  | _, _ => false

end ReservedKeys

namespace DeclarationError

def message : DeclarationError → String
  | rootNotMapping => "Schema declaration root must be a mapping of collections."
  | collectionNotMapping location =>
    "Collection '" ++ joinPath location ++ "' must be a mapping of documents."
  | documentNotMapping location keys =>
    "Document '" ++ joinPath location ++ "' must be a mapping with a '" ++ keys.schemaText ++
      "' entry and sub-collections."
  | schemaNotMapping location keys =>
    "'" ++ keys.schemaText ++ "' of document '" ++ joinPath location ++ "' must be a mapping."
  | fieldName location =>
    "Field names of document '" ++ joinPath location ++ "' must be non-empty strings."
  | fieldType name location error =>
    "Field '" ++ name ++ "' of document '" ++ joinPath location ++ "': " ++ error.message
  | nodeName role shown location =>
    "Invalid " ++ role.name ++ " name " ++ shown ++ under location ++ "."
  | separatorInName role name location =>
    "The " ++ role.name ++ " name '" ++ name ++ "'" ++ under location ++ " must not contain '/'."
where
  under (location : List String) : String :=
    if location.isEmpty then "" else " under '" ++ joinPath location ++ "'"

end DeclarationError

namespace Declaration

/-- A key that names a node: a text that is not empty and holds no separator. -/
def nodeName (role : NodeRole) (location : List String) :
    Value → Except DeclarationError String
  | .text name =>
    if name.isEmpty then .error (.nodeName role (Value.text name).shown location)
    else if Path.hasSeparator name then .error (.separatorInName role name location)
    else .ok name
  | key => .error (.nodeName role key.shown location)

/-- The declared types of the fields under a schema key, in order. -/
def schemaFields (g : Graph) (location : List String) :
    List (Value × Part) → Except DeclarationError (List (String × FieldType))
  | [] => .ok []
  | (key, part) :: rest =>
    match key with
    | .text name =>
      if name.isEmpty then .error (.fieldName location)
      else
        match (g.unfold part).declaredType with
        | .error e => .error (.fieldType name location e)
        | .ok type => (schemaFields g location rest).map ((name, type) :: ·)
    | _ => .error (.fieldName location)

/-- The schema of a document with the given entries; without a schema key it has no fields. -/
def schemaOf (g : Graph) (keys : ReservedKeys) (location : List String)
    (entries : List (Value × Part)) : Except DeclarationError Schema :=
  match entries.find? fun entry => keys.isSchemaKey entry.1 with
  | none => .ok Schema.empty
  | some (_, part) =>
    if Graph.isNull part then .ok Schema.empty
    else
      match g.entries? part with
      | none => .error (.schemaNotMapping location keys)
      | some fields => (schemaFields g location fields).map Schema.ofList

/-- The document that the part under a key of a collection is. -/
def documentRef (collection : Nat) (key : String) : Part → DocumentRef
  | .node id => .declared id
  | .leaf _ => .blank collection key

/-- The entries whose keys are texts, with their parts. -/
def namedEntries (entries : List (Value × Part)) : List (String × Part) :=
  entries.filterMap fun
    | (.text name, part) => some (name, part)
    | _ => none

def collectionOf (keys : ReservedKeys) (id : Nat) (entries : List (Value × Part)) : Collection :=
  ⟨(namedEntries entries).map fun entry => (entry.1, documentRef id entry.1 entry.2), keys.generic⟩

/-- The numbers of the parts that are containers, by name. -/
def collectionIds (entries : List (Value × Part)) : List (String × Nat) :=
  (namedEntries entries).filterMap fun
    | (name, .node id) => some (name, id)
    | (_, .leaf _) => none

/-- The entries of a document that are collections. -/
def subcollections (keys : ReservedKeys) (entries : List (Value × Part)) : List (Value × Part) :=
  entries.filter fun entry => !keys.isSchemaKey entry.1

/-- An entry still to be checked: what it has to be, where it stands, and its key. -/
structure Pending where
  role : NodeRole
  location : List String
  key : Value
  part : Part

def pendingEntries (role : NodeRole) (location : List String) (entries : List (Value × Part)) :
    List Pending :=
  entries.map fun entry => ⟨role, location, entry.1, entry.2⟩

/-- The collections and documents made so far. -/
structure Progress where
  collections : List (Nat × Collection)
  documents : List (Nat × Document)

namespace Progress

def none : Progress := ⟨[], []⟩

def seenCollections (p : Progress) : List Nat := p.collections.map (·.1)

def seenDocuments (p : Progress) : List Nat := p.documents.map (·.1)

end Progress

/-- Checks the collection under a number; met for the first time, it is made before its documents. -/
def visitCollection (g : Graph) (keys : ReservedKeys) (p : Progress) (location : List String)
    (part : Part) : Except DeclarationError (Progress × List Pending) :=
  match part with
  | .leaf _ => .error (.collectionNotMapping location)
  | .node id =>
    match g.entries? (.node id) with
    | none => .error (.collectionNotMapping location)
    | some entries =>
      if p.seenCollections.contains id then .ok (p, [])
      else
        .ok (⟨(id, collectionOf keys id entries) :: p.collections, p.documents⟩,
          pendingEntries .document location entries)

/-- Checks the document under a number; met for the first time, it is made before its collections. -/
def visitDocument (g : Graph) (keys : ReservedKeys) (p : Progress) (location : List String)
    (part : Part) : Except DeclarationError (Progress × List Pending) :=
  match part with
  | .leaf v =>
    match v with
    | .null => .ok (p, [])
    | _ => .error (.documentNotMapping location keys)
  | .node id =>
    match g.entries? (.node id) with
    | none => .error (.documentNotMapping location keys)
    | some entries =>
      if p.seenDocuments.contains id then .ok (p, [])
      else
        match schemaOf g keys location entries with
        | .error e => .error e
        | .ok schema =>
          let collections := subcollections keys entries
          .ok (⟨p.collections, (id, ⟨schema, collectionIds collections⟩) :: p.documents⟩,
            pendingEntries .collection location collections)

/-- Checks one entry; the entries inside it that are still to be checked come with the result. -/
def visit (g : Graph) (keys : ReservedKeys) (p : Progress) (pending : Pending) :
    Except DeclarationError (Progress × List Pending) :=
  match nodeName pending.role pending.location pending.key with
  | .error e => .error e
  | .ok name =>
    match pending.role with
    | .collection => visitCollection g keys p (pending.location ++ [name]) pending.part
    | .document => visitDocument g keys p (pending.location ++ [name]) pending.part

/-- The entries of a node. -/
def entriesUnder (g : Graph) (id : Nat) : List (Value × Part) := (g.entries? (.node id)).getD []

/-- The entries of the nodes that are not in a list. -/
def unseenEntries (g : Graph) (seen : List Nat) : List (Value × Part) :=
  ((List.range g.nodes.size).filter fun id => !seen.contains id).flatMap (entriesUnder g)

/-- The number of entries that may still be met for the first time. -/
def Progress.remaining (g : Graph) (p : Progress) : Nat :=
  (unseenEntries g p.seenCollections).length + (unseenEntries g p.seenDocuments).length

theorem length_entries_cons_le (f : Nat → List α) (seen : List Nat) (id : Nat) (ids : List Nat) :
    ((ids.filter fun i => !(id :: seen).contains i).flatMap f).length ≤
      ((ids.filter fun i => !seen.contains i).flatMap f).length := by
  induction ids with
  | nil => exact Nat.le_refl _
  | cons i ids ih =>
    rw [List.filter_cons, List.filter_cons, List.contains_cons, Bool.not_or]
    cases seen.contains i with
    | true => rw [Bool.not_true, Bool.and_false]; exact ih
    | false =>
      rw [Bool.not_false, Bool.and_true, if_pos rfl, List.flatMap_cons, List.length_append]
      split
      · rw [List.flatMap_cons, List.length_append]
        omega
      · omega

theorem length_entries_cons_add {f : Nat → List α} {seen : List Nat} {id : Nat} {ids : List Nat}
    (hid : id ∈ ids) (hseen : seen.contains id = false) :
    ((ids.filter fun i => !(id :: seen).contains i).flatMap f).length + (f id).length ≤
      ((ids.filter fun i => !seen.contains i).flatMap f).length := by
  obtain ⟨before, after, rfl⟩ := List.append_of_mem hid
  have hbefore := length_entries_cons_le f seen id before
  have hafter := length_entries_cons_le f seen id after
  have hnew : (!(id :: seen).contains id) = false := by
    rw [List.contains_cons, beq_self_eq_true, Bool.true_or, Bool.not_true]
  rw [List.filter_append, List.filter_append, List.filter_cons, List.filter_cons,
    if_neg (by rw [hnew]; exact Bool.false_ne_true), hseen, Bool.not_false, if_pos rfl,
    List.flatMap_append, List.flatMap_append, List.flatMap_cons, List.length_append,
    List.length_append, List.length_append]
  omega

/-- Seeing a mapping for the first time takes its entries off the unseen ones. -/
theorem unseenEntries_cons {g : Graph} {seen : List Nat} {id : Nat} {entries : List (Value × Part)}
    (he : g.entries? (.node id) = some entries) (hseen : seen.contains id = false) :
    (unseenEntries g (id :: seen)).length + entries.length ≤ (unseenEntries g seen).length := by
  have hlt : id < g.nodes.size := by
    unfold Graph.entries? at he
    by_cases h : id < g.nodes.size
    · exact h
    · simp [Array.getElem?_eq_none (Nat.le_of_not_lt h)] at he
  have hc : entriesUnder g id = entries := by rw [entriesUnder, he, Option.getD_some]
  rw [← hc]
  exact length_entries_cons_add (List.mem_range.2 hlt) hseen

/-- A visit brings no more entries than it takes off the ones still to be met. -/
theorem visit_remaining {g : Graph} {keys : ReservedKeys} {p p' : Progress} {pending : Pending}
    {more : List Pending} (h : visit g keys p pending = .ok (p', more)) :
    more.length + p'.remaining g ≤ p.remaining g := by
  unfold visit at h
  split at h
  · cases h
  · split at h
    · unfold visitCollection at h
      split at h
      · cases h
      · split at h
        · cases h
        · rename_i he
          split at h
          · cases h; simp
          · rename_i hk
            cases h
            have := unseenEntries_cons he (Bool.eq_false_iff.2 hk)
            simp [Progress.remaining, Progress.seenCollections, Progress.seenDocuments,
              pendingEntries] at this ⊢
            omega
    · unfold visitDocument at h
      split at h
      · split at h <;> cases h
        simp
      · split at h
        · cases h
        · rename_i he
          split at h
          · cases h; simp
          · rename_i hk
            split at h
            · cases h
            · cases h
              have := unseenEntries_cons he (Bool.eq_false_iff.2 hk)
              rename_i entries _ _ _
              have hl : (subcollections keys entries).length ≤ entries.length :=
                List.length_filter_le _ _
              simp [Progress.remaining, Progress.seenCollections, Progress.seenDocuments,
              pendingEntries] at this ⊢
              omega

/-- Checks all entries, those inside an entry before the ones behind it. -/
def visitAll (g : Graph) (keys : ReservedKeys) (p : Progress) (entries : List Pending) :
    Except DeclarationError Progress :=
  match entries with
  | [] => .ok p
  | pending :: rest =>
    match _ : visit g keys p pending with
    | .error e => .error e
    | .ok (p', more) => visitAll g keys p' (more ++ rest)
termination_by entries.length + p.remaining g
decreasing_by
  rename_i h
  have := visit_remaining h
  simp only [List.length_append, List.length_cons]
  omega

end Declaration

/-- The tree that a graph declares. -/
def SchemaTree.ofGraph (g : Graph) (keys : ReservedKeys) : Except DeclarationError SchemaTree :=
  match g.entries? g.root with
  | none => .error .rootNotMapping
  | some entries =>
    (Declaration.visitAll g keys .none (Declaration.pendingEntries .collection [] entries)).map
      fun p => ⟨p.collections, p.documents, ⟨Schema.empty, Declaration.collectionIds entries⟩⟩

end SchemaAtlas
