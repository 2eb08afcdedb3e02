import SchemaAtlas.Decimal.Double
import SchemaAtlas.Text.Blank
import SchemaAtlas.Text.Digit

/-!
# Numerals

Numbers as people write them: blanks around them, a sign, digits of any script, single underscores
between digits, and for an integer the mark of its base.
-/
namespace SchemaAtlas.Text

/-- The value of a digit in a base; letters are digits only in ASCII. -/
def numeralDigit? (base : Nat) (c : Char) : Option Nat :=
  ((radixDigit? 16 c).or (digitValue? c)).filter (· < base)

/-- Digits with single underscores between them, most significant first. -/
def numeralDigits? (base : Nat) (value : Nat) : List Char → Option Nat
  | [] => none
  | [c] => (numeralDigit? base c).map (value * base + ·)
  | c :: '_' :: rest =>
    match numeralDigit? base c with
    | some digit => numeralDigits? base (value * base + digit) rest
    | none => none
  | c :: rest =>
    match numeralDigit? base c with
    | some digit => numeralDigits? base (value * base + digit) rest
    | none => none

/-- Whether a letter behind a zero marks a base. -/
def isBaseMark (base : Nat) (c : Char) : Bool :=
  (base = 2 && (c = 'b' || c = 'B')) || (base = 8 && (c = 'o' || c = 'O')) ||
    (base = 16 && (c = 'x' || c = 'X'))

/-- The digits behind the mark of a base, if there is one; an underscore may follow the mark. -/
def dropBaseMark (base : Nat) : List Char → List Char
  | '0' :: mark :: rest =>
    if isBaseMark base mark then
      match rest with
      | '_' :: more => more
      | more => more
    else '0' :: mark :: rest
  | cs => cs

/-- A sign and what it stands before. -/
def splitSign : List Char → Bool × List Char
  | '-' :: rest => (true, rest)
  | '+' :: rest => (false, rest)
  | cs => (false, cs)

def integer? (base : Nat) (cs : List Char) : Option Int :=
  let (negative, rest) := splitSign (trimChars cs)
  (numeralDigits? base 0 (dropBaseMark base rest)).map fun n => if negative then -(n : Int) else n

/-- The digits of a row without its underscores, each of which has to stand between two digits. -/
def digitRow? (cs : List Char) : Option (List Char) :=
  match cs with
  | [] => some []
  | cs => (numeralDigits? 10 0 cs).map fun _ => cs.filter (· != '_')

/-- An exponent behind its letter; nothing counts as zero. -/
def exponent? : List Char → Option Int
  | [] => some 0
  | _ :: cs =>
    let (negative, rest) := splitSign cs
    (numeralDigits? 10 0 rest).map fun n => if negative then -(n : Int) else n

/-- The double nearest to a decimal numeral without a sign. -/
def decimal? (negative : Bool) (cs : List Char) : Option Double :=
  let isExponent (c : Char) : Bool := c = 'e' || c = 'E'
  let mantissa := cs.takeWhile fun c => !isExponent c
  let whole := mantissa.takeWhile (· != '.')
  match digitRow? whole, digitRow? ((mantissa.dropWhile (· != '.')).drop 1),
    exponent? (cs.dropWhile fun c => !isExponent c) with
  | some whole, some fraction, some exponent =>
    if whole.isEmpty && fraction.isEmpty then none
    else some (.ofDecimal negative (digitsValue (whole ++ fraction)) (exponent - fraction.length))
  | _, _, _ => none

/-- The double that a numeral stands for. Infinity and the undefined number have names. -/
def double? (cs : List Char) : Option Double :=
  let (negative, rest) := splitSign (trimChars cs)
  let name := String.ofList (rest.map Char.toLower)
  if name = "inf" || name = "infinity" then some (.infinite negative)
  else if name = "nan" then some .undefined
  else decimal? negative rest

end SchemaAtlas.Text
