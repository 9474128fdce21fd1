import PlcTypes.Yaml.Character

/-!
# Places in a document

A place is what is still to be read, together with the line and the column it starts at and
the number of characters before it. White space between the parts of a scalar is read as one
gap: blanks on a line stay, and line breaks are folded, a single line feed into a space.
-/

namespace PlcTypes.Yaml

/-- A place in a document. -/
structure Cursor where
  rest : List Char
  index : Nat
  line : Nat
  column : Nat

namespace Cursor

/-- The start of a document. -/
def start (text : List Char) : Cursor := ⟨text, 0, 0, 0⟩

/-- Pass one character on the line. -/
def skip (cursor : Cursor) : Cursor :=
  { cursor with rest := cursor.rest.tail, index := cursor.index + 1, column := cursor.column + 1 }

/-- Pass several characters on the line. -/
def skipMany (cursor : Cursor) : Nat → Cursor
  | 0 => cursor
  | count + 1 => cursor.skip.skipMany count

/-- Pass the characters on the line that satisfy `p`. -/
def skipWhile (p : Char → Bool) (cursor : Cursor) : Cursor :=
  cursor.skipMany (cursor.rest.takeWhile p).length

/-- The characters on the line that satisfy `p`, and the place behind them. -/
def takeWhile (p : Char → Bool) (cursor : Cursor) : List Char × Cursor :=
  (cursor.rest.takeWhile p, cursor.skipWhile p)

/-- Pass a line break, and answer with what it is read as. -/
def takeBreak (cursor : Cursor) : List Char × Cursor :=
  let next := { cursor with line := cursor.line + 1, column := 0 }
  match cursor.rest with
  | '\r' :: '\n' :: rest => (['\n'], { next with rest, index := cursor.index + 2 })
  | c :: rest =>
    (if c = '\u2028' ∨ c = '\u2029' then [c] else ['\n'], { next with rest, index := cursor.index + 1 })
  | [] => ([], cursor)

/-- Whether the document goes on with the given character. -/
def startsWith (c : Char) (cursor : Cursor) : Bool := cursor.rest.head? == some c

/-- Whether the line starts with the given three characters and goes on with a gap. -/
def atMarker (mark : Char) (cursor : Cursor) : Bool :=
  match cursor.rest with
  | a :: b :: c :: rest =>
    cursor.column == 0 && a == mark && b == mark && c == mark && atGap rest
  | _ => false

/-- Whether a document starts or ends here. -/
def atDocumentMarker (cursor : Cursor) : Bool := cursor.atMarker '-' || cursor.atMarker '.'

end Cursor

/-- White space between two parts of a scalar: blanks on one line, or a first line break and
what the further ones are read as. -/
inductive Gap where
  | blanks (text : List Char)
  | breaks (first others : List Char)

namespace Gap

/-- What a gap is read as. -/
def text : Gap → List Char
  | blanks text => text
  | breaks first others =>
    if first = ['\n'] then if others = [] then [' '] else others else first ++ others

/-- Whether a gap breaks the line. -/
def isBroken : Gap → Bool
  | blanks _ => false
  | breaks .. => true

/-- Read on in a gap. Behind a line break no tab may stand before the given column. -/
def takeWithin (column : Nat) : Nat → Gap → Cursor → Option (Gap × Cursor)
  | 0, gap, cursor => some (gap, cursor)
  | fuel + 1, gap, cursor =>
    match cursor.rest with
    | [] => some (gap, cursor)
    | c :: _ =>
      if isBlank c then
        match gap with
        | blanks text => takeWithin column fuel (blanks (text ++ [c])) cursor.skip
        | breaks .. =>
          if c = '\t' ∧ cursor.column < column then none else takeWithin column fuel gap cursor.skip
      else if isBreak c then
        let (found, cursor) := cursor.takeBreak
        match gap with
        | blanks _ => takeWithin column fuel (breaks found []) cursor
        | breaks first others => takeWithin column fuel (breaks first (others ++ found)) cursor
      else some (gap, cursor)

/-- Read a gap to its end. -/
def take? (column : Nat) (gap : Gap) (cursor : Cursor) : Option (Gap × Cursor) :=
  takeWithin column cursor.rest.length gap cursor

end Gap

end PlcTypes.Yaml
