import PlcTypes.DataType
import PlcTypes.Number.Real

/-!
# Literals

The initial value of a member is a truth value, an integer, a real or a text. A bare token is
typed by what it looks like. A member's own type then has the last word: members of the text
type hold texts, and members of the real type hold no integers.
-/

namespace PlcTypes

open Text Number

/-- An initial value. -/
inductive Literal where
  | bool (value : Bool)
  | int (value : Int64)
  | real (value : Binary64)
  | text (value : String)
  deriving DecidableEq, Repr

namespace Literal

/-- Type a bare token: a truth value, then an integer, then a finite real, and otherwise a
text. -/
def ofToken (token : List Char) : Literal :=
  let token := trim token
  if sameIgnoringCase token "true".toList then .bool true
  else if sameIgnoringCase token "false".toList then .bool false
  else
    match readInt64 token, readFiniteReal token with
    | some value, _ => .int value
    | none, some value => .real value
    | none, none => .text (String.ofList token)

/-- The spelling of a literal. -/
def spelling : Literal → String
  | bool true => "true"
  | bool false => "false"
  | int value => showInt64 value
  | real value => String.ofList (plainReal value)
  | text value => value

/-- Type a text as a bare token and leave everything else. -/
def typed : Literal → Literal
  | text value => ofToken value.toList
  | other => other

/-- Widen an integer to the nearest real. -/
def widened : Literal → Literal
  | int value => real (.ofInt value.toInt)
  | other => other

/-- Fit a literal to the type of its member. -/
def coerce (type : DataType) (literal : Literal) : Literal :=
  match type with
  | .scalar .string => .text literal.spelling
  | .scalar .real => literal.typed.widened
  | _ => literal.typed

/-- Whether this is a text of white space only. -/
def isBlankText : Literal → Bool
  | text value => (trim value.toList).isEmpty
  | _ => false

end Literal

end PlcTypes
