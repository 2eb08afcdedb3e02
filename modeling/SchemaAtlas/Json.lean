import SchemaAtlas.Text.Digit
import SchemaAtlas.Text.Blank

/-!
# JSON texts

The values that results are printed as, one entry a line. Everything but printable ASCII is escaped,
beyond the basic plane as a pair of surrogates.
-/
namespace SchemaAtlas

inductive Json
  | boolean (value : Bool)
  | text (value : String)
  | array (items : List Json)
  | object (entries : List (String × Json))

namespace Json

def unitEscape (unit : Nat) : String := "\\u" ++ Text.hexPadded 4 unit

def charText (c : Char) : String :=
  let code := c.toNat
  if c = '"' then "\\\""
  else if c = '\\' then "\\\\"
  else if c = '\n' then "\\n"
  else if c = '\r' then "\\r"
  else if c = '\t' then "\\t"
  else if c = '\x08' then "\\b"
  else if c = '\x0c' then "\\f"
  else if 0x20 ≤ code && code < 0x7f then c.toString
  else if code < 0x10000 then unitEscape code
  else unitEscape (0xd800 + (code - 0x10000) / 0x400) ++ unitEscape (0xdc00 + (code - 0x10000) % 0x400)

def quoted (s : String) : String := "\"" ++ String.join (s.toList.map charText) ++ "\""

def indentation (depth : Nat) : String := "\n" ++ String.ofList (List.replicate (2 * depth) ' ')

/-- Entries between brackets, each on a line of its own. -/
def bracketed (opening closing : String) (depth : Nat) (entries : List String) : String :=
  if entries.isEmpty then opening ++ closing
  else
    opening ++ indentation (depth + 1) ++
      Text.joinWith ("," ++ indentation (depth + 1)) entries ++ indentation depth ++ closing

mutual

/-- The text of a value at a depth of indentation. -/
def renderAt (depth : Nat) : Json → String
  | boolean b => if b then "true" else "false"
  | text s => quoted s
  | array items => bracketed "[" "]" depth (renderItems (depth + 1) items)
  | object entries => bracketed "\x7b" "\x7d" depth (renderEntries (depth + 1) entries)

def renderItems (depth : Nat) : List Json → List String
  | [] => []
  | item :: rest => renderAt depth item :: renderItems depth rest

def renderEntries (depth : Nat) : List (String × Json) → List String
  | [] => []
  | (name, value) :: rest =>
    (quoted name ++ ": " ++ renderAt depth value) :: renderEntries depth rest

end

def render (value : Json) : String := renderAt 0 value

end Json
end SchemaAtlas
