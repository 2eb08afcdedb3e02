import SchemaAtlas.Yaml.Node
import SchemaAtlas.Text.Numeral
import SchemaAtlas.Value.Shown

/-!
# Types of nodes

The type of a node is named by its tag. A plain scalar without a tag has the first type whose form
its text has, and is a text if it has none of the forms.
-/
namespace SchemaAtlas.Yaml

inductive NodeType
  | null
  | boolean
  | integer
  | double
  | binary
  | timestamp
  | text
  | sequence
  | mapping
  | set
  /-- A sequence of mappings with one entry each, which are its pairs. -/
  | pairs
  /-- A key whose mapping is taken into the one around. -/
  | merge
  /-- A key whose value stands for the whole mapping. -/
  | value
  | unknown
  deriving DecidableEq

namespace NodeType

/-- The names of the types behind the format's own handle. -/
def ofStandardName : String → NodeType
  | "null" => null
  | "bool" => boolean
  | "int" => integer
  | "float" => double
  | "binary" => binary
  | "timestamp" => timestamp
  | "str" => text
  | "seq" => sequence
  | "map" => mapping
  | "set" => set
  | "omap" => pairs
  | "pairs" => pairs
  | "merge" => merge
  | "value" => value
  | _ => unknown

def ofName (name : String) : NodeType :=
  let standard := "tag:yaml.org,2002:".toList
  if standard.isPrefixOf name.toList then
    ofStandardName (String.ofList (name.toList.drop standard.length))
  else unknown

end NodeType

/-! ## Forms of plain scalars -/

def isDigitOrUnderscore (c : Char) : Bool := c.isDigit || c = '_'

/-- A digit, and then digits and underscores. -/
def isDigitRow : List Char → Bool
  | c :: rest => c.isDigit && rest.all isDigitOrUnderscore
  | [] => false

/-- Nothing, or a letter, a sign and digits. -/
def isExponent : List Char → Bool
  | [] => true
  | letter :: sign :: digits =>
    (letter = 'e' || letter = 'E') && (sign = '+' || sign = '-') && !digits.isEmpty &&
      digits.all Char.isDigit
  | _ => false

/-- A number below sixty with at most two digits. -/
def isSixtieth : List Char → Bool
  | [c] => c.isDigit
  | [c, d] => '0' ≤ c && c ≤ '5' && d.isDigit
  | _ => false

/-- A number in base sixty: a row of digits and at least one place behind it. -/
def isSexagesimal (isRow : List Char → Bool) (cs : List Char) : Bool :=
  match Text.splitAt ':' cs with
  | row :: place :: places => isRow row && (place :: places).all isSixtieth
  | _ => false

def isBooleanForm (text : String) : Bool :=
  ["yes", "Yes", "YES", "no", "No", "NO", "true", "True", "TRUE", "false", "False", "FALSE", "on",
    "On", "ON", "off", "Off", "OFF"].contains text

def isNullForm (text : String) : Bool := ["~", "null", "Null", "NULL", ""].contains text

/-- A point with digits behind it. -/
def isFractionForm (cs : List Char) : Bool :=
  match cs with
  | '.' :: rest =>
    isDigitRow (rest.takeWhile isDigitOrUnderscore) &&
      isExponent (rest.dropWhile isDigitOrUnderscore)
  | _ => false

/-- Digits before a point, and then perhaps digits and an exponent. -/
def isPointForm (cs : List Char) : Bool :=
  match cs.dropWhile isDigitOrUnderscore with
  | '.' :: rest =>
    isDigitRow (cs.takeWhile isDigitOrUnderscore) &&
      isExponent (rest.dropWhile isDigitOrUnderscore)
  | _ => false

/-- A number in base sixty with a point. -/
def isSexagesimalPointForm (cs : List Char) : Bool :=
  match cs.dropWhile (· != '.') with
  | _ :: rest => isSexagesimal isDigitRow (cs.takeWhile (· != '.')) && rest.all isDigitOrUnderscore
  | [] => false

def isDoubleForm (cs : List Char) : Bool :=
  let unsigned := (Text.splitSign cs).2
  isPointForm unsigned || isFractionForm cs || isSexagesimalPointForm unsigned ||
    [".inf", ".Inf", ".INF"].contains (String.ofList unsigned) ||
    [".nan", ".NaN", ".NAN"].contains (String.ofList cs)

/-- A row of digits that does not start with a zero. -/
def isPositiveRow (cs : List Char) : Bool := isDigitRow cs && cs.head? != some '0'

def isIntegerForm (cs : List Char) : Bool :=
  let hasDigits (base : Nat) (digits : List Char) : Bool :=
    !digits.isEmpty && digits.all fun c => c = '_' || (Text.radixDigit? base c).isSome
  match (Text.splitSign cs).2 with
  | ['0'] => true
  | '0' :: mark :: digits =>
    (mark = 'b' && hasDigits 2 digits) || (mark = 'x' && hasDigits 16 digits) ||
      hasDigits 8 (mark :: digits)
  | unsigned => isPositiveRow unsigned || isSexagesimal isPositiveRow unsigned

/-! ### Points in time -/

/-- The parts of a written date or moment. -/
structure TimeText where
  year : Nat
  month : Nat
  day : Nat
  /-- Hour, minute and second, the digits of the fraction, and the offset in seconds if it is given. -/
  time : Option (Nat × Nat × Nat × List Char × Option Int)
  /-- Whether month and day have two digits each. -/
  isPadded : Bool

/-- One or two digits, or exactly two, and the rest. -/
def digitPair? (least : Nat) (cs : List Char) : Option (Nat × List Char) :=
  let digits := (cs.take 2).takeWhile Char.isDigit
  if digits.length < least then none
  else some (Text.digitsValue digits, cs.drop digits.length)

def isBlankOrTab (c : Char) : Bool := c = ' ' || c = '\t'

/-- What follows a given character. -/
def after? (c : Char) : List Char → Option (List Char)
  | d :: rest => if d = c then some rest else none
  | [] => none

/-- The offset at the end of a moment: nothing, the letter of universal time, or hours and minutes. -/
def offset? (cs : List Char) : Option (Option Int) :=
  match cs.dropWhile isBlankOrTab with
  | [] => if cs.isEmpty then some none else none
  | ['Z'] => some (some 0)
  | sign :: rest =>
    if sign = '+' || sign = '-' then do
      let (hours, rest) ← digitPair? 1 rest
      let minutes ←
        match rest with
        | [] => some 0
        | ':' :: digits =>
          match digitPair? 2 digits with
          | some (minutes, []) => some minutes
          | _ => none
        | _ => none
      let seconds : Int := hours * 3600 + minutes * 60
      return some (if sign = '-' then -seconds else seconds)
    else none

/-- The time of day behind a date, with what separates the two. -/
def timeOfDay? (cs : List Char) : Option (Nat × Nat × Nat × List Char × Option Int) := do
  let rest ←
    match cs with
    | c :: rest =>
      if c = 'T' || c = 't' then some rest
      else if isBlankOrTab c then some (rest.dropWhile isBlankOrTab)
      else none
    | [] => none
  let (hour, rest) ← digitPair? 1 rest
  let (minute, rest) ← digitPair? 2 (← after? ':' rest)
  let (second, rest) ← digitPair? 2 (← after? ':' rest)
  let (fraction, rest) :=
    match rest with
    | '.' :: more => (more.takeWhile Char.isDigit, more.dropWhile Char.isDigit)
    | more => ([], more)
  return (hour, minute, second, fraction, ← offset? rest)

/-- A date with a time of day or without one. -/
def timeText? (cs : List Char) : Option TimeText := do
  let year := (cs.take 4).takeWhile Char.isDigit
  if year.length < 4 then none
  let monthDigits ← after? '-' (cs.drop 4)
  let (month, rest) ← digitPair? 1 monthDigits
  let dayDigits ← after? '-' rest
  let (day, rest) ← digitPair? 1 dayDigits
  let isPadded := (digitPair? 2 monthDigits).isSome && (digitPair? 2 dayDigits).isSome
  let time ← if rest.isEmpty then some none else (timeOfDay? rest).map some
  return ⟨Text.digitsValue year, month, day, time, isPadded⟩

/-- A date alone needs two digits for its month and its day. -/
def isTimestampForm (cs : List Char) : Bool :=
  match timeText? cs with
  | some t => t.time.isSome || t.isPadded
  | none => false

/-- The type of a plain scalar. -/
def NodeType.ofPlain (text : String) : NodeType :=
  let cs := text.toList
  if isBooleanForm text then .boolean
  else if isDoubleForm cs then .double
  else if isIntegerForm cs then .integer
  else if text = "<<" then .merge
  else if isNullForm text then .null
  else if isTimestampForm cs then .timestamp
  else if text = "=" then .value
  else if ["!", "&", "*"].contains text then .unknown
  else .text

def YamlNode.type (node : YamlNode) : NodeType :=
  match node.tag with
  | .named name => .ofName name
  | .fromText =>
    match node.content with
    | .scalar text => .ofPlain text
    | .sequence _ => .sequence
    | .mapping _ => .mapping
  | .plain =>
    match node.content with
    | .scalar _ => .text
    | .sequence _ => .sequence
    | .mapping _ => .mapping

/-! ## Values of scalars -/

def booleanValue (text : String) : Except YamlError Value :=
  let word := String.ofList (text.toList.map Char.toLower)
  if ["yes", "true", "on"].contains word then .ok (.boolean true)
  else if ["no", "false", "off"].contains word then .ok (.boolean false)
  else .error (.notABoolean (Text.quoted word))

def integerOf (base : Nat) (cs : List Char) : Except YamlError Int :=
  match Text.integer? base cs with
  | some i => .ok i
  | none => .error (.notAnInteger base (Text.quoted (String.ofList cs)))

/-- An integer: the base is marked at the start, and colons separate places of base sixty. -/
def integerValue (text : String) : Except YamlError Int := do
  let cs := text.toList.filter (· != '_')
  if cs.isEmpty then throw .emptyNumber
  let (negative, cs) := Text.splitSign cs
  let size ←
    match cs with
    | ['0'] => pure 0
    | '0' :: 'b' :: digits => integerOf 2 digits
    | '0' :: 'x' :: digits => integerOf 16 digits
    | '0' :: _ => integerOf 8 cs
    | [] => throw .emptyNumber
    | _ =>
      if cs.contains ':' then do
        let places ← (Text.splitAt ':' cs).mapM (integerOf 10)
        pure (places.foldl (fun value place => value * 60 + place) 0)
      else integerOf 10 cs
  return if negative then -size else size

def doubleOf (cs : List Char) : Except YamlError Double :=
  match Text.double? cs with
  | some d => .ok d
  | none => .error (.notADouble (Text.quoted (String.ofList cs)))

/-- The sum of the places, the last one first, each times its power of sixty. -/
def sexagesimal (places : List Double) : Double :=
  (places.reverse.foldl
    (fun (sum, weight) place => (sum.add (place.mul (.ofInt weight)), weight * 60))
    (Double.zero false, (1 : Int))).1

def doubleValue (text : String) : Except YamlError Double := do
  let cs := (text.toList.filter (· != '_')).map Char.toLower
  if cs.isEmpty then throw .emptyNumber
  let (negative, cs) := Text.splitSign cs
  let size ←
    if cs = ".inf".toList then pure (.infinite false)
    else if cs = ".nan".toList then pure .undefined
    else if cs.contains ':' then pure (sexagesimal (← (Text.splitAt ':' cs).mapM doubleOf))
    else doubleOf cs
  return if negative then size.neg else size

/-- The bytes of groups of four characters with six bits each; other characters are left out. -/
def binaryFrom (place rest pads : Nat) : List Char → Option (List Nat)
  | [] => if place = 0 then some [] else none
  | c :: cs =>
    if c = '=' then
      if place ≥ 2 && place + pads + 1 ≥ 4 then some []
      else binaryFrom place rest (if place ≥ 2 then pads + 1 else pads) cs
    else
      match "ABCDEFGHIJKLMNOPQRSTUVWXYZabcdefghijklmnopqrstuvwxyz0123456789+/".toList.idxOf? c with
      | none => binaryFrom place rest pads cs
      | some bits =>
        match place with
        | 0 => binaryFrom 1 bits 0 cs
        | 1 => (binaryFrom 2 (bits % 16) 0 cs).map fun bytes => (rest * 4 + bits / 16) :: bytes
        | 2 => (binaryFrom 3 (bits % 4) 0 cs).map fun bytes => (rest * 16 + bits / 4) :: bytes
        | _ => (binaryFrom 0 0 0 cs).map fun bytes => (rest * 64 + bits) :: bytes

def binaryValue (text : String) : Except YamlError Value :=
  if text.toList.all fun c => c.toNat < 128 then
    match binaryFrom 0 0 0 text.toList with
    | some bytes => .ok (.bytes bytes false)
    | none => .error .malformed
  else .error .malformed

/-- The microseconds that the first six digits of a fraction stand for. -/
def microseconds (fraction : List Char) : Nat :=
  let digits := fraction.take 6
  Text.digitsValue (digits ++ List.replicate (6 - digits.length) '0')

def timestampValue (text : String) : Except YamlError Value :=
  match timeText? text.toList with
  | none => .error .notAMoment
  | some t =>
    match t.time with
    | none => ((Date.make t.year t.month t.day).map Value.date).mapError .calendar
    | some (hour, minute, second, fraction, offset) =>
      ((Moment.make t.year t.month t.day hour minute second (microseconds fraction) offset).map
        Value.moment).mapError .calendar

/-- The value of a scalar with a type for scalars. -/
def scalarValue (type : NodeType) (text : String) : Except YamlError Value :=
  match type with
  | .null => .ok .null
  | .boolean => booleanValue text
  | .integer => (integerValue text).map Value.integer
  | .double => (doubleValue text).map fun d => .number (.double d)
  | .binary => binaryValue text
  | .timestamp => timestampValue text
  | .text => .ok (.text text)
  | _ => .error .malformed

end SchemaAtlas.Yaml
