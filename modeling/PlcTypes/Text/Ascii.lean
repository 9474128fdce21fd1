/-!
# Letters of the ASCII range

Keywords, vendor keys and identifiers are written with ASCII letters only. Case is folded for
the letters A to Z and for no others, so no two different letters of another script are ever
taken for each other.
-/

namespace PlcTypes.Text

/-- Equality of two texts up to the case of the letters A to Z. -/
def sameIgnoringCase (a b : List Char) : Bool := a.map Char.toLower == b.map Char.toLower

/-- A letter or the underscore, the characters an identifier starts with. -/
def isNameStart (c : Char) : Bool := c.isAlpha || c == '_'

/-- A letter, a digit or the underscore, the characters an identifier goes on with. -/
def isNameChar (c : Char) : Bool := c.isAlphanum || c == '_'

/-- An identifier: one starting character and any number of further ones. -/
def isIdentifier : List Char → Bool
  | [] => false
  | c :: rest => isNameStart c && rest.all isNameChar

/-- The longest identifier a text starts with, and what follows it. -/
def takeIdentifier? : List Char → Option (List Char × List Char)
  | [] => none
  | c :: rest =>
    if isNameStart c then some (c :: rest.takeWhile isNameChar, rest.dropWhile isNameChar) else none

end PlcTypes.Text
