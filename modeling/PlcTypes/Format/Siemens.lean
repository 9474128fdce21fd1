import PlcTypes.StructuredText.Declaration

/-!
# Siemens type sources

The type name stands between double quotes behind the keyword. The description is the block
comment behind the end of the declaration.
-/

namespace PlcTypes.Siemens

open Text StructuredText

/-- The words of the dialect. -/
def dialect : Dialect := .mixedCase .siemens

/-- Recognise the head of a type declaration and read the name. -/
def head? (previous : Option Char) (text : List Char) : Option (List Char × List Char) := do
  let rest ← keywordAfter? previous "TYPE".toList text
  if startsWithSpace rest then do
    let rest ← after? ['"'] (rest.dropWhile isSpace)
    let (name, rest) ← cut? ['"'] rest
    if name = [] then none else some (name, rest)
  else none

/-- Read a type source. -/
def parse (text : String) : Except FormatError Definition :=
  dialect.parse head? (fun _ body => ((afterEnd? body).bind firstBlock?).getD []) text

/-- Write a type source. -/
def generate (d : Definition) : String :=
  "TYPE \"" ++ d.name ++ "\"\nVERSION : 0.1\n   STRUCT\n" ++
    dialect.declareAll "      " d.members ++ "   END_STRUCT;\n\nEND_TYPE\n" ++
    if d.description.isEmpty then "" else "\n(* " ++ inBlock d.description ++ " *)\n"

end PlcTypes.Siemens
