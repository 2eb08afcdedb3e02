import SchemaAtlas.Query.Predicate
import SchemaAtlas.Yaml.Reading

/-!
# Filters as texts

A filter on a command line is a field, an operator and a value in one text. The value is read as YAML
and may hold blanks.
-/
namespace SchemaAtlas.CommandLine

open Yaml (YamlError)

/-- Why a text is no filter. -/
inductive FilterError
  | tooShort (clause : String)
  | missingValue (clause : String)
  | malformedValue (clause : String)
  | value (error : YamlError)
  | query (error : QueryError)
  deriving DecidableEq

namespace FilterError

def message : FilterError → String
  | tooShort clause => "Filter '" ++ clause ++ "' must look like 'field operator value'."
  | missingValue clause => "Filter '" ++ clause ++ "' is missing a comparison value."
  | malformedValue clause =>
    "Filter value in '" ++ clause ++ "' is not valid YAML: " ++ YamlError.malformed.message
  | value error => error.message
  | query error => error.message

def ofYaml (clause : String) : YamlError → FilterError
  | .malformed => malformedValue clause
  | error => value error

end FilterError

/-- The predicate that a text stands for. -/
def predicateOf (clause : String) (read : Yaml.Parser := Yaml.read) :
    Except FilterError Predicate := do
  match (Text.splitWords 2 clause.toList).map String.ofList with
  | field :: symbol :: rest =>
    let operator ← (Operator.ofValue (.text symbol)).mapError fun e => .query (.operator e)
    let build (value : Value) : Except FilterError Predicate :=
      (Predicate.ofValue (.text field) operator value).mapError .query
    if operator = .hasField then build .null
    else
      match rest with
      | [] => throw (.missingValue clause)
      | text :: _ => build (← (read text).mapError (.ofYaml clause)).value
  | _ => throw (.tooShort clause)

end SchemaAtlas.CommandLine
