import PlcTypes.Definition
import PlcTypes.StructuredText.Quoted
import PlcTypes.Vendor

/-!
# Dialects of structured text

Structured text dialects differ in the case of their keywords and agree in everything else.
Keywords are read in any letter case. An initial value is written as a bare token, except that
the texts of text members are quoted; what is read between quotes is a text whatever the type.
-/

namespace PlcTypes.StructuredText

open Text Number

/-- The words of one dialect. -/
structure Dialect where
  vendor : Vendor
  keyword : ScalarKind → String
  arrayWord : String
  ofWord : String
  trueWord : String
  falseWord : String

namespace Dialect

/-- The dialect with the words of the standard, all in capitals. -/
def standard (vendor : Vendor) : Dialect where
  vendor
  keyword := ScalarKind.keyword
  arrayWord := "ARRAY"
  ofWord := "OF"
  trueWord := "TRUE"
  falseWord := "FALSE"

/-- The dialect with words in mixed case. -/
def mixedCase (vendor : Vendor) : Dialect where
  vendor
  keyword
    | .bool => "Bool"
    | .int => "Int"
    | .dint => "DInt"
    | .lint => "LInt"
    | .real => "Real"
    | .string => "String"
  arrayWord := "Array"
  ofWord := "of"
  trueWord := "true"
  falseWord := "false"

/-- The scalar type of a keyword in any letter case. -/
def scalarOf? (dialect : Dialect) (token : List Char) : Option ScalarKind :=
  ScalarKind.all.find? fun kind => sameIgnoringCase (dialect.keyword kind).toList token

/-- A leaf of a type: a scalar keyword or else a name. -/
def leaf (dialect : Dialect) (token : List Char) : DataType :=
  match dialect.scalarOf? token with
  | some kind => .scalar kind
  | none => .named (String.ofList token)

/-- Read a type. -/
def readType (dialect : Dialect) (text : List Char) : Except BoundError DataType :=
  DataType.decodeWith dialect.leaf text

/-- Write a type. -/
def writeType (dialect : Dialect) (type : DataType) : String :=
  type.spellWith dialect.keyword dialect.arrayWord dialect.ofWord

/-- Read an initial value: a quoted text, or a bare token typed by what it looks like. -/
def readInitial (token : List Char) : Literal :=
  match token with
  | '\'' :: rest =>
    if rest.getLast? = some '\'' then .text (String.ofList (unquote rest.dropLast))
    else .ofToken token
  | _ => .ofToken token

/-- Write an initial value for a member of the given type. -/
def writeInitial (dialect : Dialect) (type : DataType) : Literal → String
  | .bool true => dialect.trueWord
  | .bool false => dialect.falseWord
  | .text value => if type.isString then String.ofList (quote value.toList) else value
  | other => other.spelling

end Dialect

end PlcTypes.StructuredText
