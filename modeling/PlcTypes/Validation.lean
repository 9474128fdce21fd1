import PlcTypes.Universal

/-!
# Validation

A document is checked for the form of a type definition, a definition for its names. A check
never stops at the first finding; a text or a definition is valid if there is none.
-/

namespace PlcTypes

open Text Yaml

/-- What a check can find. Members without a name are referred to by their position. -/
inductive Finding where
  | unreadable
  | noTypeName
  | badTypeName (name : String)
  | noMembers
  | noMemberName (position : Nat)
  | noMemberType (label : String)
  | badMemberName (name : String)
  | duplicate (name : String)
  deriving DecidableEq, Repr

/-- The report of a finding. -/
def Finding.message : Finding → String
  | unreadable => "Invalid YAML: not one well-formed document"
  | noTypeName => "UDT missing name"
  | badTypeName name => "UDT name '" ++ name ++ "' is not a valid identifier"
  | noMembers => "UDT must have a members array"
  | noMemberName position => "Member " ++ toString position ++ " missing name"
  | noMemberType label => "Member " ++ label ++ " missing type"
  | badMemberName name => "Member name '" ++ name ++ "' is not a valid identifier"
  | duplicate name => "Duplicate member name " ++ name

namespace Validation

/-- A text in a field that is not empty. -/
def nonEmptyText? (key : String) (tree : Tree) : Option String :=
  ((tree.field? key).bind Tree.string?).filter fun text => !text.isEmpty

/-- Check the name of a type. -/
def checkName : Option String → List Finding
  | none => [.noTypeName]
  | some name => if isIdentifier name.toList then [] else [.badTypeName name]

/-- Check a member at a position, given the names of those before it. -/
def checkMember (seen : List String) (position : Nat) (tree : Tree) : List Finding :=
  let name := nonEmptyText? "name" tree
  let type := nonEmptyText? "type" tree
  (if name.isNone then [.noMemberName position] else []) ++
    (if type.isNone then [.noMemberType (name.getD (toString position))] else []) ++
    match name with
    | some name => if name ∈ seen then [.duplicate name] else []
    | none => []

/-- Check members from a position on, given the names of those before it. -/
def checkMembers (seen : List String) (position : Nat) : List Tree → List Finding
  | [] => []
  | tree :: others =>
    checkMember seen position tree ++
      checkMembers ((nonEmptyText? "name" tree).toList ++ seen) (position + 1) others

/-- Check a document tree. -/
def checkTree (tree : Tree) : List Finding :=
  checkName (nonEmptyText? "name" tree) ++
    match (tree.field? "members").bind Tree.items? with
    | some members => checkMembers [] 0 members
    | none => [.noMembers]

/-- Check the text of a document. -/
def checkText (text : String) (codec : Codec := .standard) : List Finding :=
  match codec.readSound? text with
  | some tree => checkTree tree
  | none => [.unreadable]

/-- Check the names of members, given those of the members before them. -/
def checkNames (seen : List String) : List Member → List Finding
  | [] => []
  | member :: others =>
    (if isIdentifier member.name.toList then [] else [.badMemberName member.name]) ++
      (if member.name ∈ seen then [.duplicate member.name] else []) ++
      checkNames (member.name :: seen) others

/-- Check the names of a definition. -/
def checkDefinition (d : Definition) : List Finding :=
  checkName (if d.name.isEmpty then none else some d.name) ++ checkNames [] d.members

end Validation

end PlcTypes
