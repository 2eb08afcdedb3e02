/-!
# Blank characters

The characters that separate words and may surround a name: every Unicode space and line
separator, and the four information separators of ASCII. Trimming and splitting drop exactly these.
-/
namespace SchemaAtlas.Text

/-- The closed ranges of code points that count as blank. -/
def blankRanges : List (Nat × Nat) :=
  [(0x09, 0x0d), (0x1c, 0x20), (0x85, 0x85), (0xa0, 0xa0), (0x1680, 0x1680), (0x2000, 0x200a),
   (0x2028, 0x2029), (0x202f, 0x202f), (0x205f, 0x205f), (0x3000, 0x3000)]

def inRanges (ranges : List (Nat × Nat)) (code : Nat) : Bool :=
  ranges.any fun range => range.1 ≤ code && code ≤ range.2

def isBlank (c : Char) : Bool := inRanges blankRanges c.toNat

def dropBlanks (cs : List Char) : List Char := cs.dropWhile isBlank

/-- The characters without the blank ones at either end. -/
def trimChars (cs : List Char) : List Char :=
  (dropBlanks (dropBlanks cs).reverse).reverse

def trim (s : String) : String := String.ofList (trimChars s.toList)

def isBlankText (s : String) : Bool := s.toList.all isBlank

/--
The first `limit` words, and whatever follows them as one last part. Blanks before a part are
dropped, blanks behind the last part are kept.
-/
def splitWords : (limit : Nat) → List Char → List (List Char)
  | 0, cs =>
    match dropBlanks cs with
    | [] => []
    | rest => [rest]
  | limit + 1, cs =>
    match dropBlanks cs with
    | [] => []
    | rest =>
      rest.takeWhile (fun c => !isBlank c) ::
        splitWords limit (rest.dropWhile fun c => !isBlank c)

/-- Splits `cs` at every `separator`; there is always one more part than there are separators. -/
def splitAt (separator : Char) : List Char → List (List Char)
  | [] => [[]]
  | c :: cs =>
    if c = separator then [] :: splitAt separator cs
    else
      match splitAt separator cs with
      | [] => [[c]]
      | part :: parts => (c :: part) :: parts

/-- The parts of a text between its separators. -/
def split (separator : Char) (s : String) : List String :=
  (splitAt separator s.toList).map String.ofList

/-- The parts in order with `separator` between each two of them. -/
def joinWith (separator : String) : List String → String
  | [] => ""
  | [part] => part
  | part :: parts => part ++ separator ++ joinWith separator parts

end SchemaAtlas.Text
