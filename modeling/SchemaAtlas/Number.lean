import SchemaAtlas.Decimal.Shortest

/-!
# Numbers

A number is a whole number of any size or a double. Two numbers are equal when they stand for the
same quantity, whichever of the two kinds they are: `1` equals `1.0`, and `0` equals `-0.0`.
-/
namespace SchemaAtlas

inductive Number
  | integer (value : Int)
  | double (value : Double)
  deriving DecidableEq

/-- What a number stands for, without its kind and without the sign of a zero. -/
inductive Quantity
  | finite (value : Rat)
  | infinite (negative : Bool)
  | undefined
  deriving DecidableEq

namespace Number

def quantity : Number → Quantity
  | integer i => .finite i
  | double (.finite q) => .finite q
  | double .negativeZero => .finite 0
  | double (.infinite negative) => .infinite negative
  | double .undefined => .undefined

/-- Equality of the quantities. -/
def same (a b : Number) : Bool := decide (a.quantity = b.quantity)

def text : Number → String
  | integer i => toString i
  | double d => d.text

@[simp] theorem same_iff {a b : Number} : a.same b = true ↔ a.quantity = b.quantity := by
  simp [same]

end Number
end SchemaAtlas
