import SchemaAtlas.Text.Digit
import SchemaAtlas.Text.Printable

/-!
# Quoted texts

The form in which messages show a text or a byte string: between quotes, on one line, with every
character that could not be seen written as an escape.
-/
namespace SchemaAtlas.Text

/-- Quotes are single, unless the text holds a single quote and no double one. -/
def quoteFor (cs : List Char) : Char :=
  if cs.contains '\x27' && !cs.contains '\x22' then '\x22' else '\x27'

/-- An escape of the shortest of the three widths that holds the code point. -/
def codeEscape (code : Nat) : String :=
  if code ≤ 0xff then "\\x" ++ hexPadded 2 code
  else if code ≤ 0xffff then "\\u" ++ hexPadded 4 code
  else "\\U" ++ hexPadded 8 code

/-- The escapes that are the same in texts and in byte strings. -/
def shortEscape? (quote c : Char) : Option String :=
  if c = quote || c = '\\' then some (String.ofList ['\\', c])
  else if c = '\n' then some "\\n"
  else if c = '\r' then some "\\r"
  else if c = '\t' then some "\\t"
  else none

def quotedChar (quote c : Char) : String :=
  (shortEscape? quote c).getD (if isPrintable c then c.toString else codeEscape c.toNat)

/-- A text as messages quote it. -/
def quoted (s : String) : String :=
  let quote := quoteFor s.toList
  quote.toString ++ String.join (s.toList.map (quotedChar quote)) ++ quote.toString

def quotedByte (quote : Char) (byte : Nat) : String :=
  (shortEscape? quote (Char.ofNat byte)).getD
    (if 0x20 ≤ byte && byte < 0x7f then (Char.ofNat byte).toString else codeEscape byte)

/-- A byte string as messages quote it: printable ASCII as itself, all other bytes as escapes. -/
def quotedBytes (bytes : List Nat) : String :=
  let quote := quoteFor (bytes.map Char.ofNat)
  "b" ++ quote.toString ++ String.join (bytes.map (quotedByte quote)) ++ quote.toString

end SchemaAtlas.Text
