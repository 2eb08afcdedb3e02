import SchemaAtlas.Value.Shown

/-!
# Paths given as values

A path may be given as a text, as a sequence of segments or in checked form. A byte string is a
sequence of numbers, so none but the empty one gets past the check of its first segment.
-/
namespace SchemaAtlas.Path

/-- The texts of segments that are texts without a separator; the first other one is reported. -/
def segmentTexts : List Value → Except PathError (List String)
  | [] => .ok []
  | .text s :: rest =>
    if hasSeparator s then .error (.separatorInSegment s) else (segmentTexts rest).map (s :: ·)
  | v :: _ => .error (.segmentNotText v.shown)

/-- The path with the given segments. -/
def ofSegments (allowWildcards : Bool) (segments : List Value) : Except PathError Path := do
  ofTexts allowWildcards (← segmentTexts segments)

/-- The path that a value stands for. A checked path stays as it is. -/
def ofValue (allowWildcards : Bool) : Value → Except PathError Path
  | .path p => .ok p
  | .text s => ofText allowWildcards s
  | .sequence _ items => ofSegments allowWildcards items
  | .bytes data _ => ofSegments allowWildcards (data.map fun b : Nat => Value.integer b)
  | v => .error (.notAPath v.shown)

/-- The text of the path with the given segments, none of which is a wildcard. -/
def joinSegments (segments : Value) : Except PathError String :=
  (ofValue false segments).map (·.text)

/-- The name of a collection group that a value stands for. -/
def groupNameOfValue : Value → Except PathError String
  | .text name => checkGroupName name
  | _ => .error .emptyGroupName

end SchemaAtlas.Path
