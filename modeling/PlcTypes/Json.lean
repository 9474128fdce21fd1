/-!
# JSON values

A number keeps its spelling, since whether it was written as an integer matters to a reader.
The entries of an object keep their order and may repeat a key.
-/

namespace PlcTypes

/-- A JSON value. A string whose escapes leave half of a surrogate pair alone has no text. -/
inductive Json where
  | null
  | bool (value : Bool)
  | number (spelling : String)
  | string (text : String)
  | unpaired
  | array (items : List Json)
  | object (entries : List (String × Json))

namespace Json

/-- The first entry of a key. -/
def entry? (key : String) : Json → Option Json
  | object entries => entries.lookup key
  | _ => none

/-- The text of a string. -/
def text? : Json → Option String
  | string text => some text
  | _ => none

end Json

end PlcTypes
