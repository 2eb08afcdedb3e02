import SchemaAtlas.Query.Projection
import SchemaAtlas.Tree.CollectionGroup
import SchemaAtlas.Tree.Declaration
import SchemaAtlas.Value.PathInput

/-!
# Faults

The ways in which an operation on types, trees, unions and stores can fail, in one type.
-/
namespace SchemaAtlas

inductive Fault
  | path (error : PathError)
  | group (error : GroupError)
  | query (error : QueryError)
  | type (error : DeclaredTypeError)
  | declaration (error : DeclarationError)
  deriving DecidableEq

namespace Fault

def message : Fault → String
  | path error => error.message
  | group error => error.message
  | query error => error.message
  | type error => error.message
  | declaration error => error.message

/-- Whether the fault comes from data that contains itself. -/
def isEndless : Fault → Bool
  | query .endlessValue => true
  | type .endless => true
  | declaration (.fieldType _ _ .endless) => true
  | _ => false

end Fault
end SchemaAtlas
