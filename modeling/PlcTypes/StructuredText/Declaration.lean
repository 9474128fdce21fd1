import PlcTypes.StructuredText.Comment
import PlcTypes.StructuredText.Dialect
import PlcTypes.Text.Word

/-!
# Member declarations

A member is declared on one line: its name, a colon, its type, an optional initial value, a
semicolon and an optional comment with its description. A line of any other form declares
nothing and is passed over, wherever it stands; so the declarations of a text are those of its
lines, one by one.
-/

namespace PlcTypes.StructuredText

open Text

/-- The parts of a declaration as they stand on the line. -/
structure Declaration where
  name : List Char
  type : List Char
  initial : Option (List Char)
  description : List Char
  deriving DecidableEq, Repr

/-- Drop a carriage return that ends the line. -/
def dropReturn : List Char → List Char
  | [] => []
  | ['\r'] => []
  | c :: rest => c :: dropReturn rest

/-- The description on the part of a line behind the semicolon: none, a line comment, or a
block comment that reaches the end of the line. -/
def description? (text : List Char) : Option (List Char) :=
  match text.dropWhile isBlank with
  | '/' :: '/' :: comment =>
    let comment := dropReturn comment
    if '\r' ∈ comment then none else some (trim comment)
  | '(' :: '*' :: comment =>
    match (dropEndWhile isBlank (dropReturn comment)).reverse with
    | ')' :: '*' :: reversed => some (trim reversed.reverse)
    | _ => none
  | rest => if dropReturn rest = [] then some [] else none

/-- The description behind the semicolon that a text has after blanks. -/
def closed? (text : List Char) : Option (List Char) :=
  (after? [';'] (text.dropWhile isBlank)).bind description?

/-- A quoted initial value and the description behind it. -/
def quotedInitial? : List Char → Option (List Char × List Char)
  | '\'' :: text =>
    (takeQuoted? text).bind fun (inner, rest) =>
      (closed? rest).map fun description => ('\'' :: (inner ++ ['\'']), description)
  | _ => none

/-- An initial value that ends at the first semicolon, and the description behind it. -/
def bareInitial? (text : List Char) : Option (List Char × List Char) :=
  let isPart := fun c => c != ';' && c != '\r'
  (closed? (text.dropWhile isPart)).map fun description => (trim (text.takeWhile isPart), description)

/-- An initial value and the description behind it. The quoted form goes first, since only
there a semicolon may be part of the value. -/
def initial? (text : List Char) : Option (List Char × List Char) :=
  let text := text.dropWhile isBlank
  quotedInitial? text <|> bareInitial? text

/-- The characters a type is written with. -/
def isTypeChar (c : Char) : Bool := c != ';' && c != ':' && c != '\r'

namespace Declaration

/-- The declaration on a line, if the line is one. -/
def ofLine? (line : List Char) : Option Declaration := do
  let (name, text) ← takeIdentifier? (line.dropWhile isBlank)
  let text ← after? [':'] (text.dropWhile isBlank)
  match text.takeWhile isTypeChar, text.dropWhile isTypeChar with
  | [], _ => none
  | type, ';' :: tail => (description? tail).map fun description => ⟨name, type, none, description⟩
  | type, ':' :: '=' :: tail =>
    (initial? tail).map fun (initial, description) =>
      ⟨name, type, if initial = [] then none else some initial, description⟩
  | _, _ => none

/-- The declarations of a text, in order. -/
def all (text : List Char) : List Declaration := (lines text).filterMap ofLine?

end Declaration

namespace Dialect

/-- The member that a declaration declares. -/
def readDeclaration (dialect : Dialect) (declaration : Declaration) : Except FormatError Member :=
  let name := String.ofList declaration.name
  match dialect.readType declaration.type with
  | .ok type =>
    .ok (.of name type (declaration.initial.map readInitial) (String.ofList declaration.description))
  | .error error => .error (.badMember dialect.vendor name (.bounds error))

/-- The members that a text declares. The first declaration with a wrong type is the error. -/
def readMembers (dialect : Dialect) (text : List Char) : Except FormatError (List Member) :=
  (Declaration.all text).mapM dialect.readDeclaration

/-- Read a type declaration. Its head has the name, the members follow, and the description is found
in what is before the head and behind it. -/
def parse (dialect : Dialect) (head? : Option Char → List Char → Option (List Char × List Char))
    (describe : List Char → List Char → List Char) (text : String) :
    Except FormatError Definition :=
  match find? head? none text.toList with
  | none => .error (.noDeclaration dialect.vendor)
  | some hit =>
    (dialect.readMembers hit.rest).map fun members =>
      (Definition.bare (String.ofList hit.found)
        (String.ofList (describe hit.before hit.rest))).pushAll members

/-- The part of a declaration that gives the initial value. -/
def initialPart (dialect : Dialect) (member : Member) : String :=
  match member.initial with
  | some value => " := " ++ dialect.writeInitial member.type value
  | none => ""

/-- The part of a declaration that gives the description. -/
def commentPart (member : Member) : String :=
  if member.description.isEmpty then "" else " // " ++ oneLine member.description

/-- Write the declaration of a member on one line. -/
def declare (dialect : Dialect) (member : Member) : String :=
  member.name ++ " : " ++ dialect.writeType member.type ++ dialect.initialPart member ++ ";" ++
    commentPart member

/-- Write the declarations of members on lines of their own. -/
def declareAll (dialect : Dialect) (indent : String) (members : List Member) : String :=
  String.join (members.map fun member => indent ++ dialect.declare member ++ "\n")

/-- Write a definition as a type declaration of the standard. -/
def declareType (dialect : Dialect) (indent : String) (d : Definition) : String :=
  "TYPE " ++ d.name ++ " :\nSTRUCT\n" ++ dialect.declareAll indent d.members ++
    "END_STRUCT\nEND_TYPE\n"

end Dialect

/-- Recognise the keyword that ends a type declaration. -/
def endOfType? (previous : Option Char) (text : List Char) : Option (Unit × List Char) :=
  (Text.keywordAfter? previous "END_TYPE".toList text).bind fun rest =>
    if Text.startsOutsideWord rest then some ((), rest) else none

/-- What follows the first end of a type declaration. -/
def afterEnd? (text : List Char) : Option (List Char) := (find? endOfType? none text).map Hit.rest

end PlcTypes.StructuredText
