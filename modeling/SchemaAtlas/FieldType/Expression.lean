import SchemaAtlas.FieldType.Basic
import SchemaAtlas.FieldType.Token

/-!
# Type expressions

The grammar of written types:

* `union ::= postfix ('|' postfix)*`
* `postfix ::= atom '[]'*`
* `atom ::= quoted | number | '(' union ')' | 'true' | 'false' | 'any' | 'map' |
  'array' '<' union '>' | primitive name`

Splitting into tokens is finished before reading starts, so an invalid character is reported before
any misplaced token.
-/
namespace SchemaAtlas

/-- Why a text is not a type expression. -/
inductive ExpressionError
  | blank
  | invalidCharacter (source : String) (offset : Nat)
  | trailingInput (source : String)
  | unexpectedToken (token source : String)
  | unknownName (name source : String)
  | unexpectedEnd (source : String)
  | expected (symbol token source : String)
  deriving DecidableEq

namespace ExpressionError

def message : ExpressionError → String
  | blank => "Type expression must be a non-empty string."
  | invalidCharacter source offset =>
    "Invalid character in type expression " ++ Text.quoted source ++ " at offset " ++
      toString offset ++ "."
  | trailingInput source =>
    "Unexpected trailing input in type expression: " ++ Text.quoted source
  | unexpectedToken token source =>
    "Unexpected " ++ Text.quoted token ++ " in type expression " ++ Text.quoted source ++ "."
  | unknownName name source =>
    "Unknown type name " ++ Text.quoted name ++ " in " ++ Text.quoted source ++ "."
  | unexpectedEnd source => "Unexpected end of type expression " ++ Text.quoted source ++ "."
  | expected symbol token source =>
    "Expected " ++ Text.quoted symbol ++ " but found " ++ Text.quoted token ++
      " in type expression " ++ Text.quoted source ++ "."

end ExpressionError

namespace FieldType

/-- What is left of the tokens behind a type that was read. -/
abbrev Reading := Except ExpressionError (FieldType × List Token)

/-- The number that a number lexeme writes: a double if it has a point. -/
def numberOf (lexeme : List Char) : Number :=
  let negative := lexeme.head? = some '-'
  let unsigned := if negative then lexeme.drop 1 else lexeme
  let whole := unsigned.takeWhile (· != '.')
  let fraction := (unsigned.dropWhile (· != '.')).drop 1
  if unsigned.contains '.' then
    let digits := Text.digitsValue (whole ++ fraction)
    .double (Double.ofDecimal negative digits (-(fraction.length : Int)))
  else
    let magnitude : Int := Text.digitsValue unsigned
    .integer (if negative then -magnitude else magnitude)

/-- The types that stand for themselves by name. -/
def named? (name : String) : Option FieldType :=
  if name = "true" then some (literal (.boolean true))
  else if name = "false" then some (literal (.boolean false))
  else if name = "any" then some any
  else if name = "map" then some openMap
  else (Primitive.ofName? name).map primitive

/-- Takes the symbol that has to come next. -/
def expectSymbol (source symbol : String) : List Token → Except ExpressionError (List Token)
  | [] => .error (.unexpectedEnd source)
  | token :: rest =>
    if token = Token.symbolOf symbol then .ok rest
    else .error (.expected symbol token.text source)

/-- Every `[]` behind a type makes an array of it. -/
def readBrackets (type : FieldType) : List Token → FieldType × List Token
  | [] => (type, [])
  | token :: rest =>
    if token = Token.symbolOf "[]" then readBrackets (array type) rest else (type, token :: rest)

/-- A union between an opening symbol, already taken, and its closing symbol. -/
def readEnclosed (source closing : String) (readUnion : List Token → Reading)
    (tokens : List Token) : Reading := do
  let (inner, rest) ← readUnion tokens
  let rest ← expectSymbol source closing rest
  return (inner, rest)

def readAtom (source : String) (readUnion : List Token → Reading) : List Token → Reading
  | [] => .error (.unexpectedEnd source)
  | token :: rest =>
    match token.kind with
    | .quoted => .ok (text (String.ofList ((token.lexeme.drop 1).dropLast)), rest)
    | .number => .ok (literal (.number (numberOf token.lexeme)), rest)
    | .symbol =>
      if token = Token.symbolOf "(" then readEnclosed source ")" readUnion rest
      else .error (.unexpectedToken token.text source)
    | .name =>
      if token.text = "array" then do
        let rest ← expectSymbol source "<" rest
        let (element, rest) ← readEnclosed source ">" readUnion rest
        return (array element, rest)
      else
        match named? token.text with
        | some type => .ok (type, rest)
        | none => .error (.unknownName token.text source)

/-- A single alternative is the type itself; several are combined. -/
def ofAlternatives : List FieldType → FieldType
  | [type] => type
  | types => unionOf types

/--
The alternatives of a union. Every step towards another union or another alternative takes a token,
so a bound of one more than the number of tokens is never reached.
-/
def readAlternatives (source : String) :
    (bound : Nat) → List Token → Except ExpressionError (List FieldType × List Token)
  | 0, _ => .error (.unexpectedEnd source)
  | bound + 1, tokens => do
    let readUnion (tokens : List Token) : Reading := do
      let (types, rest) ← readAlternatives source bound tokens
      return (ofAlternatives types, rest)
    let (atom, rest) ← readAtom source readUnion tokens
    match readBrackets atom rest with
    | (type, []) => return ([type], [])
    | (type, token :: rest) =>
      if token = Token.symbolOf "|" then do
        let (types, rest) ← readAlternatives source bound rest
        return (type :: types, rest)
      else return ([type], token :: rest)

/-- The type that a row of tokens writes. -/
def ofTokens (source : String) (tokens : List Token) : Except ExpressionError FieldType := do
  let (types, rest) ← readAlternatives source (tokens.length + 1) tokens
  match rest with
  | [] => return ofAlternatives types
  | _ :: _ => throw (.trailingInput source)

/-- The type that a text writes. -/
def parse (source : String) : Except ExpressionError FieldType :=
  if Text.isBlankText source then .error .blank
  else
    match tokens source with
    | .error offset => .error (.invalidCharacter source offset)
    | .ok tokens => ofTokens source tokens

end FieldType
end SchemaAtlas
