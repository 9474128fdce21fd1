import PlcTypes.Json
import PlcTypes.Number.Integer
import PlcTypes.Text.Search

/-!
# Reading JSON

The whole text has to be one value, with blanks and line breaks around it and between its
parts. A surrogate pair written as two escapes is one character.
-/

namespace PlcTypes.Json

open Text Number

/-- The white space of the format. -/
def isGap (c : Char) : Bool := c == ' ' || c == '\t' || c == '\n' || c == '\r'

/-- The value of four hexadecimal digits. -/
def fourDigits? (a b c d : Char) : Option Nat := readDigits 16 [a, b, c, d]

/-- The character of a one-letter escape. -/
def letterEscape? (c : Char) : Option Char :=
  if c = '"' ∨ c = '\\' ∨ c = '/' then some c
  else if c = 'b' then some '\x08'
  else if c = 'f' then some '\x0c'
  else if c = 'n' then some '\n'
  else if c = 'r' then some '\r'
  else if c = 't' then some '\t'
  else none

/-- Scan a string whose opening quote has been read: the code units it is made of, with escapes
resolved one by one, and what follows it. Control characters must be escaped. -/
def takeUnits? : List Char → Option (List Nat × List Char)
  | [] => none
  | '"' :: rest => some ([], rest)
  | '\\' :: 'u' :: a :: b :: c :: d :: rest => do
    let unit ← fourDigits? a b c d
    let (units, rest) ← takeUnits? rest
    some (unit :: units, rest)
  | '\\' :: c :: rest => do
    let escaped ← letterEscape? c
    let (units, rest) ← takeUnits? rest
    some (escaped.toNat :: units, rest)
  | c :: rest =>
    if c = '\\' ∨ c.toNat < 0x20 then none
    else (takeUnits? rest).map fun (units, rest) => (c.toNat :: units, rest)

/-- The first half of a surrogate pair. -/
def isHighSurrogate (unit : Nat) : Bool := 0xD800 ≤ unit && unit < 0xDC00

/-- The second half of a surrogate pair. -/
def isLowSurrogate (unit : Nat) : Bool := 0xDC00 ≤ unit && unit < 0xE000

/-- Join surrogate pairs. A half that stands alone is an error. -/
def joinUnits? : List Nat → Option (List Char)
  | [] => some []
  | [unit] => if isHighSurrogate unit || isLowSurrogate unit then none else some [Char.ofNat unit]
  | high :: low :: rest =>
    if isHighSurrogate high then
      if isLowSurrogate low then
        let code := 0x10000 + (high - 0xD800) * 0x400 + (low - 0xDC00)
        (joinUnits? rest).map (Char.ofNat code :: ·)
      else none
    else if isLowSurrogate high then none
    else (joinUnits? (low :: rest)).map (Char.ofNat high :: ·)

/-- Scan a string whose opening quote has been read. -/
def takeString? (text : List Char) : Option (Json × List Char) :=
  (takeUnits? text).map fun (units, rest) =>
    match joinUnits? units with
    | some found => (string (String.ofList found), rest)
    | none => (unpaired, rest)

/-- At least one digit at the front of a text. -/
def takeDigits? (text : List Char) : Option (List Char × List Char) :=
  match text.takeWhile Char.isDigit with
  | [] => none
  | found => some (found, text.dropWhile Char.isDigit)

/-- The whole part of a number: no zero stands in front of another digit. -/
def takeWhole? : List Char → Option (List Char × List Char)
  | '0' :: rest => some (['0'], rest)
  | text => takeDigits? text

/-- The fraction of a number, if it has one. -/
def takeFraction? : List Char → Option (List Char × List Char)
  | '.' :: rest => (takeDigits? rest).map fun (found, rest) => ('.' :: found, rest)
  | text => some ([], text)

/-- The exponent of a number, if it has one. -/
def takeExponent? : List Char → Option (List Char × List Char)
  | [] => some ([], [])
  | c :: rest =>
    if c = 'e' ∨ c = 'E' then
      let (sign, digits) :=
        match rest with
        | '+' :: digits => (['+'], digits)
        | '-' :: digits => (['-'], digits)
        | digits => ([], digits)
      (takeDigits? digits).map fun (found, rest) => (c :: (sign ++ found), rest)
    else some ([], c :: rest)

/-- Scan a number. -/
def takeNumber? (text : List Char) : Option (Json × List Char) := do
  let (sign, text) :=
    match text with
    | '-' :: rest => (['-'], rest)
    | text => ([], text)
  let (whole, text) ← takeWhole? text
  let (fraction, text) ← takeFraction? text
  let (exponent, text) ← takeExponent? text
  some (number (String.ofList (sign ++ whole ++ fraction ++ exponent)), text)

mutual

/-- Scan a value nested at most `fuel` steps deep. -/
def takeValue? : Nat → List Char → Option (Json × List Char)
  | 0, _ => none
  | fuel + 1, text =>
    match text.dropWhile isGap with
    | '"' :: rest => takeString? rest
    | '[' :: rest =>
      match rest.dropWhile isGap with
      | ']' :: rest => some (array [], rest)
      | _ => (takeItems? fuel rest).map fun (items, rest) => (array items, rest)
    | '\x7b' :: rest =>
      match rest.dropWhile isGap with
      | '\x7d' :: rest => some (object [], rest)
      | _ => (takeEntries? fuel rest).map fun (entries, rest) => (object entries, rest)
    | text =>
      ((after? "null".toList text).map fun rest => (null, rest)) <|>
        ((after? "true".toList text).map fun rest => (bool true, rest)) <|>
        ((after? "false".toList text).map fun rest => (bool false, rest)) <|> takeNumber? text

/-- Scan the items of an array up to its end. There is at least one. -/
def takeItems? : Nat → List Char → Option (List Json × List Char)
  | 0, _ => none
  | fuel + 1, text =>
    match takeValue? fuel text with
    | none => none
    | some (item, rest) =>
      match rest.dropWhile isGap with
      | ',' :: rest => (takeItems? fuel rest).map fun (items, rest) => (item :: items, rest)
      | ']' :: rest => some ([item], rest)
      | _ => none

/-- Scan the entries of an object up to its end. There is at least one. -/
def takeEntries? : Nat → List Char → Option (List (String × Json) × List Char)
  | 0, _ => none
  | fuel + 1, text =>
    match text.dropWhile isGap with
    | '"' :: rest =>
      match takeString? rest with
      | some (string key, rest) =>
        match rest.dropWhile isGap with
        | ':' :: rest =>
          match takeValue? fuel rest with
          | none => none
          | some (value, rest) =>
            match rest.dropWhile isGap with
            | ',' :: rest =>
              (takeEntries? fuel rest).map fun (entries, rest) => ((key, value) :: entries, rest)
            | '\x7d' :: rest => some ([(key, value)], rest)
            | _ => none
        | _ => none
      | _ => none
    | _ => none

end

/-- Read a text as one value. Every step of the scan takes at least one character. -/
def ofChars? (text : List Char) : Option Json :=
  match takeValue? (text.length + 1) text with
  | some (value, rest) => if rest.all isGap then some value else none
  | none => none

/-- Read a text as one value. -/
def ofText? (text : String) : Option Json := ofChars? text.toList

end PlcTypes.Json
