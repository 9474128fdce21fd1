import PlcTypes.Yaml.Cursor

/-!
# Plain scalars

A plain scalar goes on over gaps and lines until a colon before a gap, a comment, a document
marker, in block layout a line that is not indented enough, or in flow layout an indicator.
-/

namespace PlcTypes.Yaml.PlainScalar

/-- An indicator of flow layout. -/
def isFlowIndicator (c : Char) : Bool :=
  c == ',' || c == '[' || c == ']' || c == '\x7b' || c == '\x7d'

/-- How a run of characters without gaps goes on: with a further character, not at all, or in
flow layout with a colon in a forbidden place. -/
inductive Next where
  | goesOn
  | ends
  | wrong

/-- Decide how a run goes on. -/
def next (inFlow : Bool) : List Char → Next
  | [] => .ends
  | c :: rest =>
    if isBlank c || isBreak c then .ends
    else if inFlow && c == ':' && rest.head?.any fun d => isFlowIndicator d || d == '?' then .wrong
    else if c == ':' && atGap rest then .ends
    else if inFlow && isFlowIndicator c then .ends
    else .goesOn

/-- The longest run of characters without gaps. -/
def takeRun? (inFlow : Bool) : List Char → Option (List Char)
  | [] => some []
  | c :: rest =>
    match next inFlow (c :: rest) with
    | .goesOn => (takeRun? inFlow rest).map (c :: ·)
    | .ends => some []
    | .wrong => none

/-- Read on in a plain scalar behind the given text and gap. The answer says whether the last
gap, which is not part of the scalar, breaks the line. -/
def takeWithin (inFlow : Bool) (column : Nat) :
    Nat → List Char → Gap → Cursor → Option (List Char × Bool × Cursor)
  | 0, text, gap, cursor => some (text, gap.isBroken, cursor)
  | fuel + 1, text, gap, cursor =>
    if cursor.atDocumentMarker || cursor.startsWith '#' then some (text, gap.isBroken, cursor)
    else
      match takeRun? inFlow cursor.rest with
      | none => none
      | some run =>
        let behind := cursor.skipMany run.length
        let (text, gap) := if run = [] then (text, gap) else (text ++ gap.text ++ run, .blanks [])
        match behind.rest with
        | [] => some (text, gap.isBroken, behind)
        | c :: _ =>
          if isBlank c || isBreak c then
            match gap.take? column behind with
            | none => none
            | some (gap, behind) =>
              if !inFlow && behind.column < column then some (text, gap.isBroken, behind)
              else takeWithin inFlow column fuel text gap behind
          else some (text, gap.isBroken, behind)

/-- Read a plain scalar. In block layout its further lines start at the given column or later. -/
def take? (inFlow : Bool) (column : Nat) (cursor : Cursor) :
    Option (List Char × Bool × Cursor) :=
  takeWithin inFlow column cursor.rest.length [] (.blanks []) cursor

end PlcTypes.Yaml.PlainScalar
