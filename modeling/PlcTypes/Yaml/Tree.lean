import PlcTypes.Yaml.Scalar

/-!
# Document trees

A document is a tree of scalars, sequences and mappings, some of them tagged. A scalar keeps
its text beside what it stands for, since a field that holds a text takes any scalar as it is
written. A tree is sound if every scalar in it can be read and no mapping repeats a key.
-/

namespace PlcTypes.Yaml

open Number

/-- A document tree. -/
inductive Tree where
  | scalar (text : String) (value : Scalar)
  | sequence (items : List Tree)
  | mapping (entries : List (Tree × Tree))
  | tagged (tag : String) (content : Tree)

namespace Tree

/-- The tree of null. -/
def null : Tree := scalar "null" .null

/-- The tree of a truth value. -/
def ofBool (value : Bool) : Tree := scalar (if value then "true" else "false") (.bool value)

/-- The tree of a text. -/
def ofString (text : String) : Tree := scalar text .string

/-- The tree of an integer. -/
def ofInt (value : Int) : Tree := scalar (toString value) (.int value)

/-- How a real is written. -/
def realText : Binary64 → String
  | .finite negative exponent fraction => String.ofList (dataReal [] negative exponent fraction)
  | .infinite negative => if negative then "-.inf" else ".inf"
  | .nan => ".nan"

/-- The tree of a real. -/
def ofReal (value : Binary64) : Tree := scalar (realText value) (.real value)

/-- A mapping with texts for keys. -/
def ofFields (fields : List (String × Tree)) : Tree :=
  mapping (fields.map fun (key, value) => (ofString key, value))

/-- The tree under all tags. -/
def untagged : Tree → Tree
  | tagged _ content => content.untagged
  | other => other

/-- The entry of a key that is a text, in a mapping that may be tagged. -/
def field? (key : String) (tree : Tree) : Option Tree :=
  match tree.untagged with
  | mapping entries =>
    (entries.find? fun entry =>
      match entry.1 with
      | scalar text .string => text == key
      | _ => false).map Prod.snd
  | _ => none

/-- The text of a scalar that stands for a text, tagged or not. -/
def string? (tree : Tree) : Option String :=
  match tree.untagged with
  | scalar text .string => some text
  | _ => none

/-- The items of a sequence, tagged or not. -/
def items? (tree : Tree) : Option (List Tree) :=
  match tree.untagged with
  | sequence items => some items
  | _ => none

/-- The two zeros are equal. -/
def sameReal : Binary64 → Binary64 → Bool
  | .finite _ 0 0, .finite _ 0 0 => true
  | x, y => x == y

/-- Whether two scalars stand for the same. -/
def sameScalar (text : String) (value : Scalar) (text' : String) (value' : Scalar) : Bool :=
  match value, value' with
  | .string, .string => text == text'
  | .real x, .real y => sameReal x y
  | _, _ => value == value'

mutual

/-- Whether two trees are the same as keys. -/
def same : Tree → Tree → Bool
  | scalar text value, scalar text' value' => sameScalar text value text' value'
  | sequence items, sequence items' => sameItems items items'
  | mapping entries, mapping entries' => sameEntries entries entries'
  | tagged tag content, tagged tag' content' => tag == tag' && same content content'
  | _, _ => false

/-- Whether two lists of trees are the same, one by one. -/
def sameItems : List Tree → List Tree → Bool
  | [], [] => true
  | item :: items, item' :: items' => same item item' && sameItems items items'
  | _, _ => false

/-- Whether two lists of entries are the same, one by one. -/
def sameEntries : List (Tree × Tree) → List (Tree × Tree) → Bool
  | [], [] => true
  | (key, value) :: entries, (key', value') :: entries' =>
    same key key' && same value value' && sameEntries entries entries'
  | _, _ => false

end

/-- Whether no key comes twice. -/
def keysDiffer : List (Tree × Tree) → Bool
  | [] => true
  | (key, _) :: entries => (entries.all fun entry => !same key entry.1) && keysDiffer entries

mutual

/-- Whether every scalar can be read and no mapping repeats a key. -/
def isSound : Tree → Bool
  | scalar _ value => value != .unreadable && value != .notNull
  | sequence items => itemsAreSound items
  | mapping entries => keysDiffer entries && entriesAreSound entries
  | tagged _ content => content.isSound

/-- Whether all trees of a list are sound. -/
def itemsAreSound : List Tree → Bool
  | [] => true
  | item :: items => item.isSound && itemsAreSound items

/-- Whether all keys and values of a list of entries are sound. -/
def entriesAreSound : List (Tree × Tree) → Bool
  | [] => true
  | (key, value) :: entries => key.isSound && value.isSound && entriesAreSound entries

end

end Tree

end PlcTypes.Yaml
