import SchemaAtlas.Text.Blank
import SchemaAtlas.Value.Shown

/-!
# Filter operators

The operators of query filters and the symbols they are written as.
-/
namespace SchemaAtlas

inductive Operator
  | hasField | equal | lessThan | lessThanOrEqual | greaterThan | greaterThanOrEqual
  | notEqual | isIn | notIn | arrayContains | arrayContainsAny
  deriving DecidableEq

/-- What was given as an operator but is none, as messages show it. -/
structure OperatorError where
  shown : String
  deriving DecidableEq

namespace Operator

def all : List Operator :=
  [hasField, equal, lessThan, lessThanOrEqual, greaterThan, greaterThanOrEqual, notEqual, isIn,
    notIn, arrayContains, arrayContainsAny]

def symbol : Operator → String
  | hasField => "has-field"
  | equal => "=="
  | lessThan => "<"
  | lessThanOrEqual => "<="
  | greaterThan => ">"
  | greaterThanOrEqual => ">="
  | notEqual => "!="
  | isIn => "in"
  | notIn => "not-in"
  | arrayContains => "array-contains"
  | arrayContainsAny => "array-contains-any"

/-- Whether the operator compares with several alternatives. -/
def takesCandidates : Operator → Bool
  | isIn | notIn | arrayContainsAny => true
  | _ => false

def isOrdering : Operator → Bool
  | lessThan | lessThanOrEqual | greaterThan | greaterThanOrEqual => true
  | _ => false

/-- The operator of a symbol, which may have blanks around it. -/
def ofSymbol? (text : String) : Option Operator :=
  let trimmed := Text.trim text
  all.find? (·.symbol == trimmed)

/-- The operator that a value gives by its symbol. -/
def ofValue : Value → Except OperatorError Operator
  | .text s =>
    match ofSymbol? s with
    | some operator => .ok operator
    | none => .error ⟨(Value.text s).shown⟩
  | v => .error ⟨v.shown⟩

end Operator

def OperatorError.message (e : OperatorError) : String :=
  "Unsupported filter operator " ++ e.shown ++ ". Supported: " ++
    Text.joinWith ", " (Operator.all.map (·.symbol)) ++ "."

end SchemaAtlas
