import PlcTypes.Yaml.Style
import PlcTypes.Yaml.Tree

/-!
# Writing documents

A tree is written in block layout: an entry of a mapping on each line, an item of a sequence
behind each dash. A sequence that is the value of an entry starts at the column of its key;
anything else that is nested starts two columns further in.
-/

namespace PlcTypes.Yaml

/-- Spaces up to a column. -/
def spaces (column : Nat) : String := String.ofList (List.replicate column ' ')

/-- A scalar with the line break behind it. Only texts have a choice of style. -/
def scalarLine (indent : Nat) (text : String) : Scalar → String
  | .string => String.ofList (Style.write indent text.toList)
  | _ => text ++ "\n"

/-- A scalar as a key. -/
def keyText (text : String) : Scalar → String
  | .string => String.ofList (Style.writeKey text.toList)
  | _ => text

mutual

/-- What follows the colon behind a key at a column, up to the end of the value. -/
def valueText (column : Nat) : Tree → String
  | .scalar text value => " " ++ scalarLine (column + 2) text value
  | .sequence [] => " []\n"
  | .sequence items => "\n" ++ itemLines column items
  | .mapping [] => " \x7b\x7d\n"
  | .mapping entries => "\n" ++ entryLines (column + 2) entries
  | .tagged tag content => " !" ++ tag ++ valueText column content

/-- What follows the indicator of an item or of a key of several lines, which stands two columns
before the given one, up to the end of the item. -/
def itemText (column : Nat) : Tree → String
  | .scalar text value => scalarLine column text value
  | .sequence [] => "[]\n"
  | .sequence (first :: others) => "- " ++ itemText (column + 2) first ++ itemLines column others
  | .mapping [] => "\x7b\x7d\n"
  | .mapping (first :: others) => entryText column first ++ entryLines column others
  | .tagged tag content => "!" ++ tag ++ valueText column content

/-- The lines of the items of a sequence at a column. -/
def itemLines (column : Nat) : List Tree → String
  | [] => ""
  | item :: others =>
    spaces column ++ "- " ++ itemText (column + 2) item ++ itemLines column others

/-- An entry of a mapping at a column, without the indentation of its first line. -/
def entryText (column : Nat) : Tree × Tree → String
  | (.scalar text kind, value) => keyText text kind ++ ":" ++ valueText column value
  | (key, value) =>
    "? " ++ itemText (column + 2) key ++ spaces column ++ ":" ++ valueText column value

/-- The lines of the entries of a mapping at a column. -/
def entryLines (column : Nat) : List (Tree × Tree) → String
  | [] => ""
  | entry :: others => spaces column ++ entryText column entry ++ entryLines column others

end

/-- Write a document. -/
def Tree.print (tree : Tree) : String :=
  match tree with
  | .sequence (first :: others) => itemLines 0 (first :: others)
  | .mapping (first :: others) => entryLines 0 (first :: others)
  | other => itemText 0 other

end PlcTypes.Yaml
