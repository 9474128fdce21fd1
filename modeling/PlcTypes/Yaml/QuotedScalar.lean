import PlcTypes.Number.Integer
import PlcTypes.Yaml.Cursor

/-!
# Quoted scalars

Between single quotes only the quote itself is special, and is written twice. Between double
quotes a backslash escapes, and may also hide a line break. In both, line breaks are folded and
no document marker may stand at the start of a line.
-/

namespace PlcTypes.Yaml.QuotedScalar

open Number

/-- The character that an escape of one letter stands for. -/
def letterEscape? : Char → Option Char
  | '0' => some '\x00'
  | 'a' => some '\x07'
  | 'b' => some '\x08'
  | 't' => some '\t'
  | '\t' => some '\t'
  | 'n' => some '\n'
  | 'v' => some '\x0b'
  | 'f' => some '\x0c'
  | 'r' => some '\r'
  | 'e' => some '\x1b'
  | ' ' => some ' '
  | '"' => some '"'
  | '/' => some '/'
  | '\\' => some '\\'
  | 'N' => some '\u0085'
  | '_' => some '\u00a0'
  | 'L' => some '\u2028'
  | 'P' => some '\u2029'
  | _ => none

/-- The number of hexadecimal digits behind an escape with a character code. -/
def codeLength? : Char → Option Nat
  | 'x' => some 2
  | 'u' => some 4
  | 'U' => some 8
  | _ => none

/-- The character of a code, which must be no surrogate and not too large. -/
def ofCode? (code : Nat) : Option Char :=
  if (0xD800 ≤ code && code ≤ 0xDFFF) || 0x10FFFF < code then none else some (Char.ofNat code)

/-- The character of an escape whose backslash has been passed, and how long the escape is. -/
def escape? : List Char → Option (Char × Nat)
  | [] => none
  | c :: rest =>
    match letterEscape? c, codeLength? c with
    | some found, _ => some (found, 1)
    | none, some size => do
      let digits := rest.take size
      if digits.length < size then none
      else some (← ofCode? (← readDigits 16 digits), size + 1)
    | none, none => none

/-- Read on in a run of characters without gaps, behind the given text. The answer says whether
the run ends in a hidden line break. -/
def takeRunWithin (single : Bool) : Nat → List Char → Cursor → Option (List Char × Bool × Cursor)
  | 0, text, cursor => some (text, false, cursor)
  | fuel + 1, text, cursor =>
    match cursor.rest with
    | [] => some (text, false, cursor)
    | c :: rest =>
      if isBlank c || isBreak c then some (text, false, cursor)
      else if single then
        if c = '\'' then
          if rest.head? = some '\'' then
            takeRunWithin single fuel (text ++ ['\'']) (cursor.skipMany 2)
          else some (text, false, cursor)
        else takeRunWithin single fuel (text ++ [c]) cursor.skip
      else if c = '"' then some (text, false, cursor)
      else if c = '\\' then
        if rest.head?.any isBreak then some (text, true, cursor.skip.takeBreak.2)
        else
          match escape? rest with
          | none => none
          | some (found, size) =>
            takeRunWithin single fuel (text ++ [found]) (cursor.skipMany (size + 1))
      else takeRunWithin single fuel (text ++ [c]) cursor.skip

/-- The quote that ends a scalar. -/
def quoteMark (single : Bool) : Char := if single then '\'' else '"'

/-- Read on in a quoted scalar behind the given text. -/
def takeWithin (single : Bool) : Nat → List Char → Cursor → Option (List Char × Cursor)
  | 0, _, _ => none
  | fuel + 1, text, cursor =>
    if cursor.atDocumentMarker || cursor.rest = [] then none
    else
      match takeRunWithin single cursor.rest.length text cursor with
      | none => none
      | some (text, hidden, cursor) =>
        if cursor.startsWith (quoteMark single) then some (text, cursor.skip)
        else
          match Gap.take? 0 (if hidden then .breaks [] [] else .blanks []) cursor with
          | none => none
          | some (gap, cursor) => takeWithin single fuel (text ++ gap.text) cursor

/-- Read a quoted scalar whose opening quote has been passed. -/
def take? (single : Bool) (cursor : Cursor) : Option (List Char × Cursor) :=
  takeWithin single (cursor.rest.length + 1) [] cursor

end PlcTypes.Yaml.QuotedScalar
