import PlcTypes.Json
import PlcTypes.Yaml.Tree

/-!
# JSON as a document tree

A number written with a fraction or an exponent is a real, and so is one that has a sign but is
zero. Of the entries of an object that share a key, the last one counts.
-/

namespace PlcTypes

open Number

/-- The integer that the spelling of a JSON number stands for, if it stands for one. -/
def Json.integer? (spelling : List Char) : Option Int :=
  if spelling = ['-', '0'] then none else readSigned 10 spelling

namespace Yaml.Tree

/-- The tree of a JSON number. -/
def ofNumber (spelling : String) : Tree :=
  match Json.integer? spelling.toList, readReal spelling.toList with
  | some value, _ => ofInt value
  | none, some value => scalar spelling (.real value)
  | none, none => scalar spelling .unreadable

/-- Remove the entries whose keys come again. -/
def lastEntries : List (String × Tree) → List (String × Tree)
  | [] => []
  | (key, value) :: entries =>
    if entries.any fun entry => entry.1 == key then lastEntries entries
    else (key, value) :: lastEntries entries

mutual

/-- The tree of a JSON value. -/
def ofJson : Json → Tree
  | .null => null
  | .bool value => ofBool value
  | .number spelling => ofNumber spelling
  | .string text => ofString text
  | .unpaired => scalar "" .unreadable
  | .array items => sequence (ofItems items)
  | .object entries => ofFields (lastEntries (ofEntries entries))

/-- The trees of JSON values. -/
def ofItems : List Json → List Tree
  | [] => []
  | item :: items => ofJson item :: ofItems items

/-- The trees of the values of an object. -/
def ofEntries : List (String × Json) → List (String × Tree)
  | [] => []
  | (key, value) :: entries => (key, ofJson value) :: ofEntries entries

end

end Yaml.Tree

end PlcTypes
