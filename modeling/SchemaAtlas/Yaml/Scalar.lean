import SchemaAtlas.Yaml.Source

/-!
# The texts of scalars

How plain, quoted and block scalars are written, and the text that each of them stands for. The
functions start behind the opening indicator, if there is one, and give back what follows the scalar.
-/
namespace SchemaAtlas.Yaml

/--
The spaces and line breaks between two words of a scalar. The first break of a row is written as a
space, unless others follow it; an escaped break is written as nothing.
-/
inductive Gap
  | blanks (chars : List Char)
  | breaks (first : Option Char) (others : List Char)

namespace Gap

def none : Gap := blanks []

/-- The characters that a gap stands for. -/
def chars : Gap → List Char
  | blanks cs => cs
  | breaks (some '\n') [] => [' ']
  | breaks (some '\n') others => others
  | breaks (some first) others => first :: others
  | breaks Option.none others => others

def isEmpty : Gap → Bool
  | blanks [] => true
  | _ => false

def hasBreak : Gap → Bool
  | blanks _ => false
  | breaks _ _ => true

/-- The gap with one more blank; next to a break, blanks are not kept. -/
def addBlank (c : Char) : Gap → Gap
  | blanks cs => blanks (cs ++ [c])
  | breaks first others => breaks first others

def addBreak (c : Char) : Gap → Gap
  | blanks _ => breaks (some c) []
  | breaks first others => breaks first (others ++ [c])

end Gap

/-- A scalar read from a source. -/
structure Lexeme where
  text : String
  rest : Source

/-! ## Plain scalars -/

/-- Whether a character between two words or at the end of one cannot belong to a plain scalar. -/
def endsPlain (inFlow : Bool) (p : Placed) (rest : Source) : Bool :=
  let closes (c : Char) : Bool := [',', '[', ']', '\x7b', '\x7d'].contains c
  p.isTab ||
    (p.char = ':' && (rest.atGap || (inFlow && (rest.head?.map fun q => closes q.char).getD false))) ||
    (inFlow && (closes p.char || p.char = '?'))

/--
The plain scalar from here on, where `done` holds its characters so far, the latest first. Outside a
flow collection its lines are indented by at least `indent` columns. With the scalar comes the gap
that follows it.
-/
def plainFrom (inFlow : Bool) (indent : Nat) (done : List Char) (gap : Gap) :
    Source → Lexeme × Gap
  | [] => (⟨String.ofList done.reverse, []⟩, gap)
  | p :: rest =>
    if p.isSpace then plainFrom inFlow indent done (gap.addBlank ' ') rest
    else if p.isBreak then
      if Source.isDocumentMarker rest then (⟨String.ofList done.reverse, rest⟩, gap.addBreak p.char)
      else plainFrom inFlow indent done (gap.addBreak p.char) rest
    else if endsPlain inFlow p rest || (p.char = '#' && !gap.isEmpty) ||
        (!inFlow && gap.hasBreak && p.column < indent) then
      (⟨String.ofList done.reverse, p :: rest⟩, gap)
    else plainFrom inFlow indent (p.char :: (gap.chars.reverse ++ done)) .none rest

/-! ## Quoted scalars -/

/-- What an escape with a single letter stands for. -/
def escape? : Char → Option Char
  | '0' => some '\x00'
  | 'a' => some '\x07'
  | 'b' => some '\x08'
  | 't' => some '\t'
  | '\t' => some '\t'
  | 'n' => some '\n'
  | 'v' => some '\x0b'
  | 'f' => some '\x0c'
  | 'r' => some '\r'
  | 'e' => some '\x1b'
  | ' ' => some ' '
  | '"' => some '"'
  | '\\' => some '\\'
  | '/' => some '/'
  | 'N' => some '\u0085'
  | '_' => some '\u00a0'
  | 'L' => some '\u2028'
  | 'P' => some '\u2029'
  | _ => none

/-- The number of hexadecimal digits of an escape with a code point. -/
def escapeWidth? : Char → Option Nat
  | 'x' => some 2
  | 'u' => some 4
  | 'U' => some 8
  | _ => none

/-- The character that the next digits name. A text holds no surrogate, so none can be named. -/
def codePoint (width : Nat) (s : Source) : Except YamlError Char :=
  let digits := s.chars.take width
  if digits.length < width then .error .malformed
  else
    match Text.radixValue? 16 digits with
    | some code =>
      if (Char.ofNat code).toNat = code then .ok (Char.ofNat code) else .error .escapeRange
    | none => .error .malformed

/-- The scalar up to the closing quote; only between double quotes a backslash escapes. -/
def quotedFrom (quote : Char) (done : List Char) (gap : Gap) (s : Source) :
    Except YamlError Lexeme :=
  match s with
  | [] => .error .malformed
  | p :: rest =>
    if gap.hasBreak && Source.isDocumentMarker (p :: rest) then .error .malformed
    else if p.isSpace || p.isTab then quotedFrom quote done (gap.addBlank p.char) rest
    else if p.isBreak then quotedFrom quote done (gap.addBreak p.char) rest
    else
      let done := gap.chars.reverse ++ done
      if p.char = quote then
        match rest with
        | q :: more =>
          if quote = '\x27' && q.char = quote then quotedFrom quote (quote :: done) .none more
          else .ok ⟨String.ofList done.reverse, q :: more⟩
        | [] => .ok ⟨String.ofList done.reverse, []⟩
      else if quote = '"' && p.char = '\\' then
        match rest with
        | [] => .error .malformed
        | q :: more =>
          match escape? q.char with
          | some c => quotedFrom quote (c :: done) .none more
          | none =>
            match escapeWidth? q.char with
            | some width =>
              match codePoint width more with
              | .ok c => quotedFrom quote (c :: done) .none (more.drop width)
              | .error e => .error e
            | none =>
              if q.isBreak then quotedFrom quote done (.breaks none []) more
              else .error .malformed
      else quotedFrom quote (p.char :: done) .none rest
termination_by s.length
decreasing_by all_goals (simp; try omega)

/-! ## Block scalars -/

/-- What becomes of the line breaks at the end of a block scalar. -/
inductive Chomping
  | strip | clip | keep

/-- The indicators of a block scalar: how it ends, and how far it is indented if that is given. -/
structure BlockHeader where
  chomping : Chomping
  increment : Option Nat

def chomping? (c : Char) : Option Chomping :=
  if c = '+' then some .keep else if c = '-' then some .strip else none

/-- A number from one to nine. -/
def increment? (c : Char) : Option Nat := (Text.radixDigit? 10 c).filter (· != 0)

/-- At most one indicator of each kind, in either order. -/
def blockHeader (s : Source) : BlockHeader × Source :=
  match s with
  | p :: rest =>
    match chomping? p.char with
    | some chomping =>
      match rest with
      | q :: more =>
        match increment? q.char with
        | some n => (⟨chomping, some n⟩, more)
        | none => (⟨chomping, none⟩, q :: more)
      | [] => (⟨chomping, none⟩, [])
    | none =>
      match increment? p.char with
      | some n =>
        match rest with
        | q :: more =>
          match chomping? q.char with
          | some chomping => (⟨chomping, some n⟩, more)
          | none => (⟨.clip, some n⟩, q :: more)
        | [] => (⟨.clip, some n⟩, [])
      | none => (⟨.clip, none⟩, p :: rest)
  | [] => (⟨.clip, none⟩, [])

/-- The breaks of the lines that hold nothing but spaces, and the widest of their indentations. -/
def leadingBreaks (breaks : List Char) (widest : Nat) : Source → List Char × Nat × Source
  | [] => (breaks, widest, [])
  | p :: rest =>
    if p.isSpace then leadingBreaks breaks (max widest (p.column + 1)) rest
    else if p.isBreak then leadingBreaks (breaks ++ [p.char]) widest rest
    else (breaks, widest, p :: rest)

/-- The breaks of the lines that end before the given column; then the spaces up to the column. -/
def blankLines (indent : Nat) : Source → List Char × Source
  | [] => ([], [])
  | p :: rest =>
    if p.isSpace && p.column < indent then blankLines indent rest
    else if p.isBreak then
      let (breaks, rest) := blankLines indent rest
      (p.char :: breaks, rest)
    else ([], p :: rest)

theorem length_blankLines_le (indent : Nat) (s : Source) :
    (blankLines indent s).2.length ≤ s.length := by
  induction s with
  | nil => simp [blankLines]
  | cons p rest ih =>
    unfold blankLines
    split
    · simp; omega
    · split
      · simp; omega
      · simp

/-- Whether a line of a block scalar starts here. -/
def atBlockLine (indent : Nat) : Source → Bool
  | p :: _ => p.column = indent
  | [] => false

/-- What stands for a line break between two lines, before the breaks of empty lines. -/
def foldedBreak (folded : Bool) (lineBreak : Char) (first next : Source) (breaks : List Char) :
    List Char :=
  let isIndented (s : Source) : Bool := (s.head?.map fun p => p.isSpace || p.isTab).getD false
  if folded && lineBreak = '\n' && !isIndented first && !isIndented next then
    if breaks.isEmpty then [' '] else []
  else [lineBreak]

/-- What is kept of the line break behind the last line and of the breaks of the empty lines below. -/
def Chomping.kept (chomping : Chomping) (last breaks : List Char) : List Char :=
  match chomping with
  | strip => []
  | clip => last
  | keep => last ++ breaks

/-- The lines of a block scalar; `breaks` are those of the empty lines above. -/
def blockLines (folded : Bool) (chomping : Chomping) (indent : Nat) (breaks : List Char)
    (s : Source) : List Char × Source :=
  match s with
  | [] => (chomping.kept [] breaks, [])
  | p :: rest =>
    if p.column = indent then
      let line := breaks ++ p.char :: (Source.chars (rest.takeWhile fun q => !q.isBreak))
      match _ : rest.dropWhile fun q => !q.isBreak with
      | [] => (line, [])
      | b :: below =>
        let next := blankLines indent below
        if atBlockLine indent next.2 then
          let others := blockLines folded chomping indent next.1 next.2
          (line ++ foldedBreak folded b.char (p :: rest) next.2 next.1 ++ others.1, others.2)
        else (line ++ chomping.kept [b.char] next.1, next.2)
    else (chomping.kept [] breaks, p :: rest)
termination_by s.length
decreasing_by
  rename_i h _
  have h1 := length_blankLines_le indent below
  have h2 : (b :: below).length ≤ rest.length := h ▸ (List.dropWhile_sublist _).length_le
  simp only [List.length_cons] at *
  omega

/-- The block scalar below a line, inside a collection at column `parent` if there is one. -/
def blockScalar (folded : Bool) (parent : Option Nat) (s : Source) : Except YamlError Lexeme := do
  let (header, rest) := blockHeader s
  if !rest.atSpace then throw .malformed
  let body ← rest.skipIgnoredLine
  let least := max 1 ((parent.map (· + 1)).getD 0)
  let (breaks, indent, body) :=
    match header.increment with
    | some n =>
      let indent := least + n - 1
      let (breaks, body) := blankLines indent body
      (breaks, indent, body)
    | none =>
      let (breaks, widest, body) := leadingBreaks [] 0 body
      (breaks, max least widest, body)
  let (cs, rest) := blockLines folded header.chomping indent breaks body
  return ⟨String.ofList cs, rest⟩

end SchemaAtlas.Yaml
