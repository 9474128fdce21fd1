import PlcTypes.StructuredText.Declaration

/-!
# Beckhoff data unit types

The declaration may be wrapped in anything. The description is the line comment behind the end
of the declaration, or else the block comment in front of it.
-/

namespace PlcTypes.Beckhoff

open Text StructuredText

/-- The words of the dialect. -/
def dialect : Dialect := .standard .beckhoff

/-- Recognise the head of a type declaration and read the name. -/
def head? (previous : Option Char) (text : List Char) : Option (List Char × List Char) := do
  let rest ← keywordAfter? previous "TYPE".toList text
  if startsWithSpace rest then do
    let (name, rest) ← takeIdentifier? (rest.dropWhile isSpace)
    let rest ← after? [':'] (rest.dropWhile isSpace)
    some (name, rest)
  else none

/-- The description of a type, given the text before and behind the head of its declaration. -/
def findDescription (before body : List Char) : List Char :=
  match (afterEnd? body).bind firstLine? with
  | some description => description
  | none => ((firstBlock? before).map foldLine).getD []

/-- Read a data unit type. -/
def parse (text : String) : Except FormatError Definition :=
  dialect.parse head? findDescription text

/-- Write a data unit type. -/
def generate (d : Definition) : String :=
  "\x7battribute 'qualified_only'\x7d\n\x7battribute 'strict'\x7d\n" ++
    dialect.declareType "\t" d ++
    if d.description.isEmpty then "" else "\n// " ++ oneLine d.description ++ "\n"

end PlcTypes.Beckhoff
