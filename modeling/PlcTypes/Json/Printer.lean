import PlcTypes.Json

/-!
# Writing JSON

Values are laid out over lines with two spaces per level. Empty arrays and objects stay on the
line.
-/

namespace PlcTypes.Json

/-- The four hexadecimal digits of a code unit. -/
def fourDigits (n : Nat) : List Char :=
  [n / 4096, n / 256, n / 16, n].map fun digit => Nat.digitChar (digit % 16)

/-- A character as it is written in a string. -/
def escapeChar (c : Char) : List Char :=
  if c = '"' then ['\\', '"']
  else if c = '\\' then ['\\', '\\']
  else if c = '\x08' then ['\\', 'b']
  else if c = '\x0c' then ['\\', 'f']
  else if c = '\n' then ['\\', 'n']
  else if c = '\r' then ['\\', 'r']
  else if c = '\t' then ['\\', 't']
  else if c.toNat < 0x20 then '\\' :: 'u' :: fourDigits c.toNat
  else [c]

/-- A text as a string. -/
def quote (text : String) : String := "\"" ++ String.ofList (text.toList.flatMap escapeChar) ++ "\""

/-- The indentation of a level. -/
def indent (level : Nat) : String := String.ofList (List.replicate (2 * level) ' ')

mutual

/-- Write a value whose first line stands at a level. -/
def render (level : Nat) : Json → String
  | null => "null"
  | bool true => "true"
  | bool false => "false"
  | number spelling => spelling
  | string text => quote text
  | unpaired => quote "\ufffd"
  | array [] => "[]"
  | array (first :: others) =>
    "[\n" ++ indent (level + 1) ++ render (level + 1) first ++ renderItems (level + 1) others ++
      "\n" ++ indent level ++ "]"
  | object [] => "\x7b\x7d"
  | object ((key, value) :: others) =>
    "\x7b\n" ++ indent (level + 1) ++ quote key ++ ": " ++ render (level + 1) value ++
      renderEntries (level + 1) others ++ "\n" ++ indent level ++ "\x7d"

/-- Write further items of an array. -/
def renderItems (level : Nat) : List Json → String
  | [] => ""
  | item :: others => ",\n" ++ indent level ++ render level item ++ renderItems level others

/-- Write further entries of an object. -/
def renderEntries (level : Nat) : List (String × Json) → String
  | [] => ""
  | (key, value) :: others =>
    ",\n" ++ indent level ++ quote key ++ ": " ++ render level value ++ renderEntries level others

end

/-- Write a value. -/
def pretty (value : Json) : String := render 0 value

end PlcTypes.Json
