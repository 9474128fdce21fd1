import PlcTypes.Yaml.Cursor

/-!
# Block scalars

The header of a block scalar may give its indentation and says what becomes of the line breaks
at its end. Otherwise the first line that is not empty decides the indentation. A literal
scalar keeps its line breaks; a folded one joins two lines by a space where neither starts with
a blank.
-/

namespace PlcTypes.Yaml.BlockScalar

/-- What becomes of the line breaks at the end. -/
inductive Chomping where
  | strip
  | clip
  | keep
  deriving DecidableEq

/-- What the header says. -/
structure Header where
  chomping : Chomping
  increment : Option Nat

/-- The indicator of an ending. -/
def chomping? : Char → Option Chomping
  | '+' => some .keep
  | '-' => some .strip
  | _ => none

/-- A depth of indentation, which is a digit. -/
def isDepth (c : Char) : Bool := c.isDigit

/-- Read the indicators of a header in either order. A depth of zero is wrong. -/
def takeIndicators? (cursor : Cursor) : Option (Header × Cursor) :=
  let depth := fun c : Char => if c = '0' then none else some (c.toNat - '0'.toNat)
  match cursor.rest with
  | c :: rest =>
    match chomping? c with
    | some chomping =>
      match rest with
      | d :: _ =>
        if isDepth d then (depth d).map fun n => (⟨chomping, some n⟩, cursor.skipMany 2)
        else some (⟨chomping, none⟩, cursor.skip)
      | [] => some (⟨chomping, none⟩, cursor.skip)
    | none =>
      if isDepth c then
        (depth c).map fun n =>
          match rest.head?.bind chomping? with
          | some chomping => (⟨chomping, some n⟩, cursor.skipMany 2)
          | none => (⟨.clip, some n⟩, cursor.skip)
      else some (⟨.clip, none⟩, cursor)
  | [] => some (⟨.clip, none⟩, cursor)

/-- Pass the rest of a line that may hold only blanks and a comment. -/
def takeLineEnd? (cursor : Cursor) : Option Cursor :=
  let cursor := cursor.skipWhile isBlank
  let cursor := if cursor.startsWith '#' then cursor.skipWhile (fun c => !isBreak c) else cursor
  match cursor.rest with
  | [] => some cursor
  | c :: _ => if isBreak c then some cursor.takeBreak.2 else none

/-- Pass indentation and empty lines up to the given column, or if there is none yet as far as
they reach. The answer holds the line breaks and the largest column. A tab where indentation is
expected is wrong. -/
def takeEmptyWithin (column : Option Nat) :
    Nat → Nat → List Char → Cursor → Option (Nat × List Char × Cursor)
  | 0, widest, breaks, cursor => some (widest, breaks, cursor)
  | fuel + 1, widest, breaks, cursor =>
    let inside := fun n : Nat => column.all fun limit => n < limit
    let depth := (cursor.rest.takeWhile (· == ' ')).length
    let depth := (column.map fun limit => min depth (limit - cursor.column)).getD depth
    let cursor := cursor.skipMany depth
    let widest := max widest cursor.column
    match cursor.rest with
    | [] => some (widest, breaks, cursor)
    | c :: _ =>
      if inside cursor.column && c == '\t' then none
      else if isBreak c then
        let (found, cursor) := cursor.takeBreak
        takeEmptyWithin column fuel widest (breaks ++ found) cursor
      else some (widest, breaks, cursor)

/-- Pass indentation and empty lines. -/
def takeEmpty? (column : Option Nat) (cursor : Cursor) : Option (Nat × List Char × Cursor) :=
  takeEmptyWithin column (cursor.rest.length + 1) 0 [] cursor

/-- The lines read so far: the text, the line break behind it, the breaks of the empty lines
that follow, and whether the last line starts with a blank. -/
structure Lines where
  text : List Char
  lineBreak : List Char
  emptyBreaks : List Char
  startsBlank : Bool

/-- What stands between two lines of the text. -/
def Lines.joint (lines : Lines) (literal startsBlank : Bool) : List Char :=
  if !literal && lines.lineBreak = ['\n'] && !lines.startsBlank && !startsBlank then
    if lines.emptyBreaks = [] then [' '] else lines.emptyBreaks
  else lines.lineBreak ++ lines.emptyBreaks

/-- Read on in a block scalar at a column, behind the given lines. -/
def takeWithin (literal : Bool) (column : Nat) : Nat → Lines → Cursor → Option (Lines × Cursor)
  | 0, lines, cursor => some (lines, cursor)
  | fuel + 1, lines, cursor =>
    if cursor.column ≠ column || cursor.rest = [] then some (lines, cursor)
    else
      let startsBlank := cursor.rest.head?.any isBlank
      let (line, cursor) := cursor.takeWhile (fun c => !isBreak c)
      let text := lines.text ++ lines.joint literal startsBlank ++ line
      let (lineBreak, cursor) := cursor.takeBreak
      match takeEmpty? (some column) cursor with
      | none => none
      | some (_, emptyBreaks, cursor) =>
        takeWithin literal column fuel ⟨text, lineBreak, emptyBreaks, startsBlank⟩ cursor

/-- The text of a block scalar with its end treated as the header says. -/
def Lines.chomped (lines : Lines) : Chomping → List Char
  | .strip => lines.text
  | .clip => lines.text ++ lines.lineBreak
  | .keep => lines.text ++ lines.lineBreak ++ lines.emptyBreaks

/-- Read a block scalar whose indicator has been passed, in a block indented to the given
column, which is -1 outside of all blocks. -/
def take? (literal : Bool) (indent : Int) (cursor : Cursor) : Option (List Char × Cursor) := do
  let (header, cursor) ← takeIndicators? cursor
  let cursor ← takeLineEnd? cursor
  let given := header.increment.map fun n => (max indent 0).toNat + n
  let (widest, breaks, cursor) ← takeEmpty? given cursor
  let column := given.getD (max widest (max (indent + 1) 1).toNat)
  let (lines, cursor) ← takeWithin literal column cursor.rest.length ⟨[], [], breaks, false⟩ cursor
  some (lines.chomped header.chomping, cursor)

end PlcTypes.Yaml.BlockScalar
