import PlcTypes.StructuredText.Declaration

/-!
# CODESYS type declarations

They are only written, never read. The description goes into a block comment in front.
-/

namespace PlcTypes.Codesys

open StructuredText

/-- The words of the dialect. -/
def dialect : Dialect := .standard .codesys

/-- Write a type declaration. -/
def generate (d : Definition) : String :=
  (if d.description.isEmpty then "" else "(* " ++ inBlock d.description ++ " *)\n") ++
    dialect.declareType "    " d

end PlcTypes.Codesys
