/-!
# Doubles

Floating-point numbers as the values they stand for. A finite double is the rational `m · 2^e` that
it denotes, so comparison with an integer is exact; only the sign of a zero needs a case of its own.
-/
namespace SchemaAtlas

/-- An IEEE 754 binary64 number. -/
inductive Double
  | finite (value : Rat)
  | negativeZero
  | infinite (negative : Bool)
  | undefined
  deriving DecidableEq

namespace Double

/-- The quotient rounded to the nearest natural number, a half to the even neighbour. -/
def roundQuotient (num den : Nat) : Nat :=
  let floor := num / den
  let twice := 2 * (num % den)
  if twice < den || (twice = den && floor % 2 = 0) then floor else floor + 1

/-- The exponent of the greatest power of two that is not above `num / den`. -/
def floorLog2 (num den : Nat) : Int :=
  let guess : Int := (num.log2 : Int) - den.log2
  let reached :=
    if guess ≥ 0 then den * Nat.pow 2 guess.toNat ≤ num else den ≤ num * Nat.pow 2 (-guess).toNat
  if reached then guess else guess - 1

/-- `2 ^ 1024`, the least magnitude that is out of range. -/
def limit : Nat := Nat.pow 2 1024

/-- The last place of a double near `num / den`; the place of the subnormal numbers is the least. -/
def lastPlace (num den : Nat) : Int := max (floorLog2 num den - 52) (-1074)

/-- The significand that `num / den` is rounded to at its last place. -/
def significand (num den : Nat) : Nat :=
  let place := lastPlace num den
  if place ≥ 0 then roundQuotient num (den * Nat.pow 2 place.toNat)
  else roundQuotient (num * Nat.pow 2 (-place).toNat) den

def zero (negative : Bool) : Double := if negative then negativeZero else finite 0

/-- The double nearest to the magnitude `num / den` with a sign; ties go to the even significand. -/
def nearest (negative : Bool) (num den : Nat) : Double :=
  if num = 0 then zero negative
  else
    let place := lastPlace num den
    let digits := significand num den
    if digits = 0 then zero negative
    else
      let magnitude : Rat :=
        if place ≥ 0 then ((digits * Nat.pow 2 place.toNat : Nat) : Rat)
        else mkRat digits (Nat.pow 2 (-place).toNat)
      if magnitude ≥ (limit : Rat) then infinite negative
      else finite (if negative then -magnitude else magnitude)

/--
The double nearest to `digits · 10^exponent`. Exponents far outside the range are decided by the
number of digits, without computing the power.
-/
def ofDecimal (negative : Bool) (digits : Nat) (exponent : Int) : Double :=
  if digits = 0 then zero negative
  else
    let top := ((Nat.toDigits 10 digits).length : Int) + exponent
    if top > 400 then infinite negative
    else if top < -400 then zero negative
    else if exponent ≥ 0 then nearest negative (digits * Nat.pow 10 exponent.toNat) 1
    else nearest negative digits (Nat.pow 10 (-exponent).toNat)

/-- The double nearest to a rational number; a result of zero has no sign. -/
def ofRat (q : Rat) : Double := nearest (q < 0) q.num.natAbs q.den

def ofInt (i : Int) : Double := ofRat i

def neg : Double → Double
  | finite q => if q = 0 then negativeZero else finite (-q)
  | negativeZero => finite 0
  | infinite negative => infinite !negative
  | undefined => undefined

/-- The exact value, where there is one. -/
def toRat? : Double → Option Rat
  | finite q => some q
  | negativeZero => some 0
  | infinite _ | undefined => none

/-- The correctly rounded sum. -/
def add : Double → Double → Double
  | undefined, _ | _, undefined => undefined
  | infinite a, infinite b => if a = b then infinite a else undefined
  | infinite a, _ => infinite a
  | _, infinite b => infinite b
  | negativeZero, negativeZero => negativeZero
  | negativeZero, y => y
  | x, negativeZero => x
  | finite p, finite q => ofRat (p + q)

def isNegative : Double → Bool
  | finite q => q < 0
  | negativeZero => true
  | infinite negative => negative
  | undefined => false

def isZero : Double → Bool
  | finite q => q = 0
  | negativeZero => true
  | _ => false

/-- The correctly rounded product. -/
def mul (x y : Double) : Double :=
  let negative := x.isNegative != y.isNegative
  match x, y with
  | undefined, _ | _, undefined => undefined
  | infinite _, y => if y.isZero then undefined else infinite negative
  | x, infinite _ => if x.isZero then undefined else infinite negative
  | x, y =>
    let product := x.toRat?.getD 0 * y.toRat?.getD 0
    nearest negative product.num.natAbs product.den

end Double
end SchemaAtlas
