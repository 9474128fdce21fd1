import PlcTypes.Number.Real
import PlcTypes.Text.Search

/-!
# Scalars

A scalar that stands in a document without quotes is null, a truth value, an integer, a real,
or else a text. Digits behind a leading zero are a text. An integer is read up to 128 bits;
beyond 64 bits it is known to be one but has no value here, and neither has a text that does
not fit its tag. A text tagged as null that is not null is wrong even where any text will do,
unless it has quotes. Nothing at all behind a tag is blank: an empty text, or an empty sequence
where one is expected.
-/

namespace PlcTypes.Yaml

open Text Number

-- powers are those of the core library, whatever else is imported
attribute [local instance (high)] instPowNat

/-- What a scalar stands for. A text stands for itself. -/
inductive Scalar where
  | null
  | bool (value : Bool)
  | int (value : Int)
  | real (value : Binary64)
  | string
  | blank
  | unreadable
  | notNull
  deriving DecidableEq, Repr

namespace Scalar

/-- The spellings of null, except for nothing at all. -/
def isNull (text : List Char) : Bool :=
  ["null", "Null", "NULL", "~"].any fun word => word.toList == text

/-- The spellings of the truth values. -/
def bool? (text : List Char) : Option Bool :=
  if ["true", "True", "TRUE"].any fun word => word.toList == text then some true
  else if ["false", "False", "FALSE"].any fun word => word.toList == text then some false
  else none

/-- An optional sign in front of several digits, the first a zero. -/
def hasLeadingZero (text : List Char) : Bool :=
  let unsigned :=
    match text with
    | '+' :: rest => rest
    | '-' :: rest => rest
    | _ => text
  match unsigned with
  | '0' :: rest => rest != [] && rest.all Char.isDigit
  | _ => false

/-- A natural number, in a base other than ten behind a mark. -/
def natural? (text : List Char) : Option Nat :=
  match text with
  | '0' :: 'x' :: rest => readDigits 16 rest
  | '0' :: 'o' :: rest => readDigits 8 rest
  | '0' :: 'b' :: rest => readDigits 2 rest
  | _ => if hasLeadingZero text then none else readDigits 10 text

/-- An integer of at most 128 bits with an optional sign. -/
def int? (text : List Char) : Option Int :=
  match text with
  | '-' :: rest => ((natural? rest).filter (· ≤ 2 ^ (127 : Nat))).map fun n => -(n : Int)
  | '+' :: rest => ((natural? rest).filter (· < 2 ^ (128 : Nat))).map fun n => (n : Int)
  | _ => ((natural? text).filter (· < 2 ^ (128 : Nat))).map fun n => (n : Int)

/-- A real: a finite decimal, an infinity or the value that is no number. -/
def real? (text : List Char) : Option Binary64 :=
  let unsigned :=
    match text with
    | '+' :: rest => rest
    | _ => text
  if [".inf", ".Inf", ".INF"].any fun word => word.toList == unsigned then some (.infinite false)
  else if ["-.inf", "-.Inf", "-.INF"].any fun word => word.toList == text then some (.infinite true)
  else if [".nan", ".NaN", ".NAN"].any fun word => word.toList == text then some .nan
  else
    match text with
    | '+' :: '+' :: _ => none
    | '+' :: '-' :: _ => none
    | _ => readFiniteReal text

/-- An integer that has a value: a signed or an unsigned one of 64 bits. -/
def ofInt (value : Int) : Scalar :=
  if -(2 ^ (63 : Nat) : Int) ≤ value ∧ value < 2 ^ (64 : Nat) then int value else unreadable

/-- What a scalar without quotes and without a tag stands for. -/
def ofPlain (text : List Char) : Scalar :=
  if text = [] || isNull text then null
  else
    match bool? text, int? text with
    | some value, _ => bool value
    | none, some value => ofInt value
    | none, none =>
      if hasLeadingZero text then string
      else
        match real? text with
        | some value => real value
        | none => string

/-- What the tags of the format's own types start with. -/
def coreTag : String := "tag:yaml.org,2002:"

/-- What a scalar with one of the format's own tags stands for, without quotes or with them. -/
def ofTagged (tag : String) (isPlain : Bool) (text : List Char) : Scalar :=
  if tag = coreTag ++ "bool" then
    match bool? text with
    | some value => bool value
    | none => unreadable
  else if tag = coreTag ++ "int" then
    match int? text with
    | some value => ofInt value
    | none => unreadable
  else if tag = coreTag ++ "float" then
    match real? text with
    | some value => real value
    | none => unreadable
  else if tag = coreTag ++ "null" then
    if isNull text then null else if isPlain then notNull else unreadable
  else if isPlain && text.isEmpty then blank
  else string

end Scalar

end PlcTypes.Yaml
