import PlcTypes.Text.Search
import PlcTypes.Text.Space

/-!
# Comments

Descriptions travel in comments. A description is folded onto one line first, and inside a
block comment the two characters that would close it are kept apart by a space.
-/

namespace PlcTypes.StructuredText

open Text

/-- Put a space into every pair of characters that closes a block comment. -/
def keepOpen : List Char → List Char
  | '*' :: ')' :: rest => '*' :: ' ' :: ')' :: keepOpen rest
  | c :: rest => c :: keepOpen rest
  | [] => []

/-- A description on one line. -/
def oneLine (description : String) : String := String.ofList (foldLine description.toList)

/-- A description on one line that can stand in a block comment. -/
def inBlock (description : String) : String :=
  String.ofList (keepOpen (foldLine description.toList))

/-- The trimmed text of the first block comment. -/
def firstBlock? (text : List Char) : Option (List Char) :=
  (between? ['(', '*'] ['*', ')'] text).map trim

/-- The trimmed text of the first line comment. -/
def firstLine? (text : List Char) : Option (List Char) :=
  (cut? ['/', '/'] text).map fun (_, tail) => trim (tail.takeWhile fun c => c != '\r' && c != '\n')

end PlcTypes.StructuredText
