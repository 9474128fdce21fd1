import PlcTypes.Literal

/-!
# Type definitions

A definition is a name, a description and an ordered list of members. Building a member fits
its initial value to its type, and pushing a member whose name is taken replaces the holder of
the name in its place, so the names of a built definition are distinct.

A draft is a definition as it is written down, with type spellings that may turn out wrong.
-/

namespace PlcTypes

open Text

/-- A member of a type definition. -/
structure Member where
  name : String
  type : DataType
  initial : Option Literal
  description : String
  deriving DecidableEq, Repr

/-- A member with the initial value fitted to the type. A blank text is no value at all, unless
the member holds text. -/
def Member.of (name : String) (type : DataType) (initial : Option Literal)
    (description : String) : Member :=
  let fitted := (initial.map (Literal.coerce type)).filter fun value =>
    type.isString || !value.isBlankText
  ⟨name, type, fitted, description⟩

/-- A type definition. -/
structure Definition where
  name : String
  description : String
  members : List Member
  deriving DecidableEq, Repr

/-- Put a member into a list: in the place of the first of its name, or else at the end. -/
def putMember (member : Member) : List Member → List Member
  | [] => [member]
  | first :: others =>
    if first.name = member.name then member :: others else first :: putMember member others

namespace Definition

/-- A definition without members. -/
def bare (name description : String) : Definition := ⟨name, description, []⟩

/-- Put a member into the definition. -/
def push (d : Definition) (member : Member) : Definition :=
  { d with members := putMember member d.members }

/-- Build a member and put it into the definition. -/
def withMember (d : Definition) (name : String) (type : DataType) (initial : Option Literal)
    (description : String) : Definition :=
  d.push (Member.of name type initial description)

/-- Put members into the definition, one after the other. -/
def pushAll (d : Definition) (members : List Member) : Definition := members.foldl push d

/-- The same definition under another name. -/
def renamed (d : Definition) (name : String) : Definition := { d with name }

/-- The member of a name. -/
def member? (d : Definition) (name : String) : Option Member :=
  d.members.find? fun member => member.name == name

end Definition

/-- A type as it is written down: spelled, or built from parts whose bounds are unchecked. -/
inductive TypeDraft where
  | spelled (text : String)
  | scalar (kind : ScalarKind)
  | named (name : String)
  | array (base : TypeDraft) (lower upper : Int64)

/-- Build the drafted type, the base of an array before the array. -/
def TypeDraft.build : TypeDraft → Except BoundError DataType
  | spelled text => DataType.ofSpelling text
  | scalar kind => .ok (.scalar kind)
  | named name => .ok (.named name)
  | array base lower upper => do (← base.build).arrayOf lower upper

/-- A member as it is written down. -/
structure MemberDraft where
  name : String
  type : TypeDraft
  initial : Option Literal
  description : String

/-- Build the drafted member. -/
def MemberDraft.build (draft : MemberDraft) : Except BoundError Member := do
  return .of draft.name (← draft.type.build) draft.initial draft.description

/-- A definition as it is written down. -/
structure Draft where
  name : String
  description : String
  members : List MemberDraft

/-- Build the drafted definition. The first member with a wrong type decides the error. -/
def Draft.build (draft : Draft) : Except BoundError Definition := do
  return (Definition.bare draft.name draft.description).pushAll
    (← draft.members.mapM MemberDraft.build)

end PlcTypes
