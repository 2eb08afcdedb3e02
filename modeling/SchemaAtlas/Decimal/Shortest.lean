import SchemaAtlas.Decimal.Double

/-!
# Shortest decimal text

A finite double is written with the fewest significant digits that read back as the same double; of
several such texts the nearest to the exact value is taken. Where the layout changes from positional
to scientific is one record, `Layout`.
-/
namespace SchemaAtlas.Double

/-- The number of digits in front of the decimal point of `num / den`, zero or negative below 1/10. -/
def decimalPoint (num den : Nat) : Int :=
  if den ≤ num then ((Nat.toDigits 10 (num / den)).length : Int)
  else
    let zeros := (Nat.toDigits 10 (den / num)).length
    if num * Nat.pow 10 (zeros - 1) = den then 2 - (zeros : Int) else 1 - (zeros : Int)

/-- The value `digits · 10^exponent` as a fraction. -/
def scaled (digits : Nat) (exponent : Int) : Nat × Nat :=
  if exponent ≥ 0 then (digits * Nat.pow 10 exponent.toNat, 1)
  else (digits, Nat.pow 10 (-exponent).toNat)

/--
The neighbour of `num / den` on the grid of step `10^exponent` that reads back as the same double,
the nearer one if both do, and the even one of two equally near.
-/
def gridNeighbour? (num den : Nat) (exponent : Int) : Option Nat :=
  let step := scaled 1 exponent
  let below := num * step.2 / (den * step.1)
  let readsBack (digits : Nat) : Bool :=
    let point := scaled digits exponent
    nearest false point.1 point.2 = nearest false num den
  let rounded := roundQuotient (num * step.2) (den * step.1)
  if readsBack rounded then some rounded
  else if readsBack below then some below
  else if readsBack (below + 1) then some (below + 1)
  else none

/-- All digits of the double nearest to `num / den`, and the exponent of the last of them. -/
def exactDigits (num den : Nat) : Nat × Int :=
  let place := lastPlace num den
  let digits := significand num den
  if place ≥ 0 then (digits * Nat.pow 2 place.toNat, 0)
  else (digits * Nat.pow 5 (-place).toNat, place)

/--
The first grid, from coarse to fine, with a neighbour that reads back. Behind the last grid the digits
are exact; seventeen digits are enough to tell all doubles apart, so it does not come to that.
-/
def shortestFrom (num den : Nat) (point : Int) : (remaining digits : Nat) → Nat × Int
  | 0, _ => exactDigits num den
  | remaining + 1, digits =>
    let exponent := point - digits
    match gridNeighbour? num den exponent with
    | some found => (found, exponent)
    | none => shortestFrom num den point remaining (digits + 1)

/-- The shortest digits and the exponent of the last of them, for a positive fraction. -/
def shortest (num den : Nat) : Nat × Int :=
  shortestFrom num den (decimalPoint num den) 17 1

/-- How the digits of a decimal are laid out. -/
structure Layout where
  /-- Decimal exponents from here on upwards are written positionally. -/
  positionalFrom : Int
  /-- Decimal exponents below this one are written positionally. -/
  positionalBelow : Int
  /-- The least number of digits in a written exponent. -/
  exponentWidth : Nat

/-- Positional from `0.0001` up to sixteen integer digits, otherwise an exponent of two digits. -/
def layout : Layout := ⟨-4, 16, 2⟩

def dropTrailingZeros (digits : List Char) : List Char :=
  (digits.reverse.dropWhile (· = '0')).reverse

/-- The digits with the decimal point behind the first `point` of them. -/
def positional (digits : List Char) (point : Int) : String :=
  let zeros (n : Nat) : List Char := List.replicate n '0'
  String.ofList <|
    if point ≤ 0 then '0' :: '.' :: zeros (-point).toNat ++ digits
    else if digits.length ≤ point.toNat then
      digits ++ zeros (point.toNat - digits.length) ++ ['.', '0']
    else digits.take point.toNat ++ '.' :: digits.drop point.toNat

/-- One digit, the others behind a point, and the exponent with its sign. -/
def scientific (layout : Layout) (digits : List Char) (exponent : Int) : String :=
  let written := Nat.toDigits 10 exponent.natAbs
  let sign := if exponent < 0 then '-' else '+'
  String.ofList <|
    digits.take 1 ++ (if digits.length > 1 then '.' :: digits.drop 1 else []) ++
      'e' :: sign :: List.replicate (layout.exponentWidth - written.length) '0' ++ written

/-- The text of a positive finite double. -/
def magnitudeText (num den : Nat) : String :=
  let (found, last) := shortest num den
  let written := Nat.toDigits 10 found
  let point := (written.length : Int) + last
  let digits := dropTrailingZeros written
  let exponent := point - 1
  if layout.positionalFrom ≤ exponent && exponent < layout.positionalBelow then
    positional digits point
  else scientific layout digits exponent

/-- The text that a double is written as. -/
def text : Double → String
  | finite q =>
    if q = 0 then "0.0"
    else (if q < 0 then "-" else "") ++ magnitudeText q.num.natAbs q.den
  | negativeZero => "-0.0"
  | infinite negative => if negative then "-inf" else "inf"
  | undefined => "nan"

end SchemaAtlas.Double
