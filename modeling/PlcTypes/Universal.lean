import PlcTypes.Definition
import PlcTypes.Json.Printer
import PlcTypes.Yaml.Codec
import PlcTypes.Yaml.OfJson

/-!
# The universal form of a definition

A definition is written as a document tree with a name, a description and a list of members,
and can also be written as JSON. Reading takes the text of a field as it stands, whatever it
would stand for on its own; only initial values are typed. Unknown fields are passed over and a
known one may come once. How trees are printed and read is a parameter.
-/

namespace PlcTypes

open Number Yaml

/-- Why a universal document cannot be read. -/
inductive UniversalError where
  | malformed
  | badType (member : String) (error : BoundError)
  deriving DecidableEq, Repr

/-- The report of a universal error. -/
def UniversalError.message : UniversalError → String
  | malformed => "Invalid universal document: not the form of a type definition"
  | badType member error => "Invalid type for member '" ++ member ++ "': " ++ error.message

namespace Literal

/-- A literal as a document tree. -/
def toTree : Literal → Tree
  | bool value => .ofBool value
  | int value => .ofInt value.toInt
  | real value => .ofReal value
  | text value => .ofString value

/-- A literal as JSON. A real that is not finite is null. -/
def toJson : Literal → Json
  | bool value => .bool value
  | int value => .number (showInt64 value)
  | real (.finite negative exponent fraction) =>
    .number (String.ofList (dataReal ['+'] negative exponent fraction))
  | real _ => .null
  | text value => .string value

/-- The literal of an integer: an integer of 64 bits, and otherwise the nearest real. -/
def ofInteger (value : Int) : Literal :=
  match toInt64? value with
  | some value => int value
  | none => real (.ofInt value)

/-- The literal of a JSON value that is a truth value, a number or a text. -/
def ofJson? : Json → Option Literal
  | .bool value => some (bool value)
  | .number spelling =>
    match Json.integer? spelling.toList with
    | some value => some (ofInteger value)
    | none => (readReal spelling.toList).map real
  | .string value => some (text value)
  | _ => none

/-- The literal of a tree that is a scalar with a value and without a tag of its own. -/
def ofTree? : Tree → Option Literal
  | .scalar spelling value =>
    match value with
    | .bool value => some (.bool value)
    | .int value => some (ofInteger value)
    | .real value => some (.real value)
    | .string | .blank => some (.text spelling)
    | .null | .unreadable | .notNull => none
  | _ => none

end Literal

namespace Member

/-- A member as a document tree. -/
def toTree (member : Member) : Tree :=
  .ofFields
    [("name", .ofString member.name), ("type", .ofString member.type.spelling),
     ("default", (member.initial.map Literal.toTree).getD .null),
     ("description", .ofString member.description)]

/-- A member as JSON. -/
def toJson (member : Member) : Json :=
  .object
    [("name", .string member.name), ("type", .string member.type.spelling),
     ("default", (member.initial.map Literal.toJson).getD .null),
     ("description", .string member.description)]

end Member

namespace Definition

/-- A definition as a document tree. -/
def toTree (d : Definition) : Tree :=
  .ofFields
    [("name", .ofString d.name), ("description", .ofString d.description),
     ("members", .sequence (d.members.map Member.toTree))]

/-- A definition as JSON. -/
def toJson (d : Definition) : Json :=
  .object
    [("name", .string d.name), ("description", .string d.description),
     ("members", .array (d.members.map Member.toJson))]

/-- The text of the universal document of a definition. -/
def toUniversal (d : Definition) (codec : Codec := .standard) : String := codec.print d.toTree

/-- The text of a definition as JSON. -/
def toJsonText (d : Definition) : String := d.toJson.pretty

end Definition

namespace Universal

/-- The fields of a mapping by the texts of their keys. Every key must have a text. -/
def fields? (tree : Tree) : Option (List (String × Tree)) :=
  match tree.untagged with
  | .mapping entries =>
    entries.mapM fun (key, value) =>
      match key.untagged with
      | .scalar text _ => some (text, value)
      | _ => none
  | _ => none

/-- The value of a field that may come once. -/
def field? (name : String) (fields : List (String × Tree)) : Option (Option Tree) :=
  match fields.filter fun entry => entry.1 == name with
  | [] => some none
  | [entry] => some (some entry.2)
  | _ => none

/-- The text of a scalar, whatever it stands for. -/
def text? (tree : Tree) : Option String :=
  match tree.untagged with
  | .scalar text _ => some text
  | _ => none

/-- The text of a field that must be there. -/
def requiredText? : Option Tree → Option String
  | some tree => text? tree
  | none => none

/-- The text of a field that may be left out or null. -/
def optionalText? : Option Tree → Option String
  | none => some ""
  | some (.scalar _ .null) => some ""
  | some (.scalar _ .notNull) => none
  | some tree => text? tree

/-- The initial value of a field that may be left out or null. -/
def optionalLiteral? : Option Tree → Option (Option Literal)
  | none => some none
  | some (.scalar _ .null) => some none
  | some tree => (Literal.ofTree? tree).map some

/-- The items of a field that may be left out or null. -/
def optionalItems? : Option Tree → Option (List Tree)
  | none => some []
  | some (.scalar _ .null) => some []
  | some tree =>
    match tree.untagged with
    | .sequence items => some items
    | .scalar "" .null | .scalar _ .blank => some []
    | _ => none

/-- The member that a tree describes. -/
def member? (tree : Tree) : Option MemberDraft := do
  let fields ← fields? tree
  let name ← requiredText? (← field? "name" fields)
  let type ← requiredText? (← field? "type" fields)
  let initial ← optionalLiteral? (← field? "default" fields)
  let description ← optionalText? (← field? "description" fields)
  some ⟨name, .spelled type, initial, description⟩

/-- The definition that a tree describes, with its type spellings unread. -/
def draft? (tree : Tree) : Option Draft := do
  let fields ← fields? tree
  let name ← requiredText? (← field? "name" fields)
  let description ← optionalText? (← field? "description" fields)
  let members ← (← optionalItems? (← field? "members" fields)).mapM member?
  some ⟨name, description, members⟩

/-- Build a member, and name it in the error. -/
def buildMember (draft : MemberDraft) : Except UniversalError Member :=
  match draft.build with
  | .ok member => .ok member
  | .error error => .error (.badType draft.name error)

/-- Build a definition. The first member with a wrong type is the error. -/
def build (draft : Draft) : Except UniversalError Definition :=
  (draft.members.mapM buildMember).map fun members =>
    (Definition.bare draft.name draft.description).pushAll members

end Universal

/-- Read a definition from a document tree. -/
def Definition.ofTree (tree : Tree) : Except UniversalError Definition :=
  match Universal.draft? tree with
  | some draft => Universal.build draft
  | none => .error .malformed

/-- Read a definition from the text of a universal document. -/
def Definition.ofUniversal (text : String) (codec : Codec := .standard) :
    Except UniversalError Definition :=
  match codec.read? text with
  | some tree => Definition.ofTree tree
  | none => .error .malformed

end PlcTypes
