import SchemaAtlas.Files.Path
import SchemaAtlas.Tree.CollectionGroup
import SchemaAtlas.Tree.DeclarationText

/-!
# Configurations

What a configuration file settles: the declaration of the schema, the reserved keys it uses, and how
deep collection groups are searched. The sections are checked on the values that the file holds; an
absent section means its defaults.
-/
namespace SchemaAtlas

open Yaml (YamlError)

/-- Why a configuration is refused. -/
inductive ConfigurationError
  | fileNotFound (path : FilePath)
  | malformed
  | rootNotMapping
  | schemaRequired
  | inlineAndPath
  | inlineNotText
  | pathNotText
  | schemaFileNotFound (path : FilePath)
  | noDefinition
  | emptySchema
  | sectionNotMapping (name : String)
  | keyNotText (field : String)
  | keyEmpty (field : String)
  | separatorInKey (field : String)
  | sameKeys
  | depthNotInteger
  | depthNotPositive
  | declarationText (error : DeclarationTextError)
  | declaration (error : DeclarationError)
  deriving DecidableEq

namespace ConfigurationError

def message : ConfigurationError → String
  | fileNotFound path => "Configuration file not found: " ++ path.text
  | malformed => "Failed to parse configuration file: " ++ YamlError.malformed.message
  | rootNotMapping => "Configuration root must be a mapping."
  | schemaRequired => "Configuration section 'schema' is required."
  | inlineAndPath => "Schema definition must not set both inline and path."
  | inlineNotText => "schema.inline must be a string."
  | pathNotText => "schema.path must be a string."
  | schemaFileNotFound path => "Schema file not found: " ++ path.text
  | noDefinition => "Schema definition requires either inline or path."
  | emptySchema => "Schema declaration text cannot be empty."
  | sectionNotMapping name => "Configuration section '" ++ name ++ "' must be a mapping."
  | keyNotText field => field ++ " must be a string."
  | keyEmpty field => field ++ " must not be empty."
  | separatorInKey field => field ++ " must not contain '/'."
  | sameKeys => "declaration.schema_key and declaration.generic_document_key must differ."
  | depthNotInteger => "resolution.max_traversal_depth must be an integer."
  | depthNotPositive => "resolution.max_traversal_depth must be greater than zero."
  | declarationText error => error.message
  | declaration error => error.message

end ConfigurationError

/-- The text of a declaration, and the file that it was read from if there is one. -/
structure SchemaSource where
  text : String
  file : Option FilePath
  deriving DecidableEq

/-- Where a configuration has its declaration. -/
inductive SchemaDefinition
  | inline (text : String)
  | file (path : FilePath)
  deriving DecidableEq

/-- The reserved keys, both set. -/
structure DeclarationSettings where
  schemaKey : String
  genericKey : String
  deriving DecidableEq

def DeclarationSettings.keys (s : DeclarationSettings) : ReservedKeys :=
  ⟨some s.schemaKey, some s.genericKey⟩

structure Configuration where
  path : FilePath
  schema : SchemaSource
  declaration : DeclarationSettings
  /-- The number of levels that a collection group is searched for. -/
  depth : Int
  deriving DecidableEq

namespace Configuration

/-- The part behind a name. -/
def part? (entries : List (Value × Part)) (name : String) : Option Part :=
  Value.get? (.text name) entries

/-- Whether a part counts as absent. -/
def isVoid (g : Graph) : Option Part → Bool
  | none => true
  | some (.leaf v) => v.isVoid
  | some (.node id) =>
    match g.nodes[id]? with
    | some (.mapping entries) => entries.isEmpty
    | some (.sequence _ items) => items.isEmpty
    | none => true

/-- The entries of a section that may be left out. -/
def optionalSection (g : Graph) (entries : List (Value × Part)) (name : String) :
    Except ConfigurationError (List (Value × Part)) :=
  match part? entries name with
  | none => .ok []
  | some part =>
    if Graph.isNull part then .ok []
    else
      match g.entries? part with
      | some entries => .ok entries
      | none => .error (.sectionNotMapping name)

/-- The definition in a section; one of its two ways has to be used, and not both. -/
def definitionIn (g : Graph) (entries : List (Value × Part)) :
    Except ConfigurationError SchemaDefinition :=
  let inline := part? entries "inline"
  let path := part? entries "path"
  if !isVoid g inline && !isVoid g path then .error .inlineAndPath
  else if !isVoid g inline then
    match inline with
    | some (.leaf (.text text)) => .ok (.inline text)
    | _ => .error .inlineNotText
  else if !isVoid g path then
    match path with
    | some (.leaf (.text text)) => .ok (.file (.ofText text))
    | _ => .error .pathNotText
  else .error .noDefinition

/-- The definition of the schema: the declaration itself, or a section that says where it is. -/
def schemaDefinition (g : Graph) (entries : List (Value × Part)) :
    Except ConfigurationError SchemaDefinition :=
  match part? entries "schema" with
  | some (.leaf (.text text)) => .ok (.inline text)
  | some part =>
    match g.entries? part with
    | some entries => definitionIn g entries
    | none => .error .schemaRequired
  | none => .error .schemaRequired

/-- A reserved key: a text that names a node, without the blanks around it. -/
def reservedKey (field default : String) : Option Part → Except ConfigurationError String
  | none => .ok default
  | some (.leaf (.text text)) =>
    let key := Text.trim text
    if key.isEmpty then .error (.keyEmpty field)
    else if Path.hasSeparator key then .error (.separatorInKey field)
    else .ok key
  | some _ => .error (.keyNotText field)

/-- The reserved keys, which have to be different. -/
def declarationSettings (g : Graph) (entries : List (Value × Part)) :
    Except ConfigurationError DeclarationSettings := do
  let settings ← optionalSection g entries "declaration"
  let schemaKey ← reservedKey "declaration.schema_key" "$schema" (part? settings "schema_key")
  let genericKey ← reservedKey "declaration.generic_document_key" "*"
    (part? settings "generic_document_key")
  if schemaKey = genericKey then throw .sameKeys
  return ⟨schemaKey, genericKey⟩

/-- A number of levels, at least one. -/
def levels : Option Part → Except ConfigurationError Int
  | none => .ok defaultDepth
  | some (.leaf (.number (.integer depth))) =>
    if depth ≤ 0 then .error .depthNotPositive else .ok depth
  | some _ => .error .depthNotInteger

def searchDepth (g : Graph) (entries : List (Value × Part)) : Except ConfigurationError Int := do
  levels (part? (← optionalSection g entries "resolution") "max_traversal_depth")

/-- The entries of a configuration; an empty file has none. -/
def rootEntries (g : Graph) : Except ConfigurationError (List (Value × Part)) :=
  if Graph.isNull g.root then .ok []
  else
    match g.entries? g.root with
    | some entries => .ok entries
    | none => .error .rootNotMapping

end Configuration
end SchemaAtlas
