import SchemaAtlas.Tree.Declaration
import SchemaAtlas.Yaml.Reading

/-!
# Declarations as texts

A declaration may be written as a YAML text, of which JSON is a part. The text has to hold a mapping.
-/
namespace SchemaAtlas

open Yaml (YamlError)

/-- Why a text is not a declaration. -/
inductive DeclarationTextError
  | malformed
  /-- A scalar of the text has no value. -/
  | value (error : YamlError)
  | empty
  | rootNotMapping
  deriving DecidableEq

namespace DeclarationTextError

def ofYaml : YamlError → DeclarationTextError
  | .malformed => malformed
  | error => value error

def message : DeclarationTextError → String
  | malformed => "Invalid schema declaration: " ++ YamlError.malformed.message
  | value error => error.message
  | empty => "Schema declaration is empty."
  | rootNotMapping => "Schema declaration root must be a mapping of collections."

end DeclarationTextError

/-- The graph of the declaration that a text is. -/
def Graph.ofDeclarationText (text : String) (read : Yaml.Parser := Yaml.read) :
    Except DeclarationTextError Graph := do
  let g ← (read text).mapError .ofYaml
  if Graph.isNull g.root then throw .empty
  else if (g.entries? g.root).isSome then return g
  else throw .rootNotMapping

end SchemaAtlas
