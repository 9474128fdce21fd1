import PlcTypes.Number.Integer

/-!
# Quoted texts

A text literal stands between single quotes. A dollar sign escapes: itself and the quote, the
control characters with a letter of their own, and any character code as two hexadecimal
digits. The scanner that finds the end of a literal only knows that a dollar sign takes the
next character with it.
-/

namespace PlcTypes.StructuredText

open Number

/-- The Unicode category Cc. -/
def isControl (c : Char) : Bool := c.toNat < 0x20 || (0x7F ≤ c.toNat && c.toNat < 0xA0)

/-- A hexadecimal digit in capitals. -/
def hexDigit (n : Nat) : Char := (Nat.digitChar (n % 16)).toUpper

/-- The two hexadecimal digits of a character code below 256. -/
def hexPair (n : Nat) : List Char := [hexDigit (n / 16), hexDigit n]

/-- A character as it is written between quotes. -/
def escape (c : Char) : List Char :=
  if c = '$' then ['$', '$']
  else if c = '\'' then ['$', '\'']
  else if c = '\n' then ['$', 'N']
  else if c = '\r' then ['$', 'R']
  else if c = '\t' then ['$', 'T']
  else if c = '\x0c' then ['$', 'P']
  else if isControl c then '$' :: hexPair c.toNat
  else [c]

/-- A text as a quoted literal. -/
def quote (text : List Char) : List Char := '\'' :: (text.flatMap escape ++ ['\''])

/-- The control character that a letter after a dollar sign stands for. -/
def letterEscape? (c : Char) : Option Char :=
  if c = 'N' ∨ c = 'n' ∨ c = 'L' ∨ c = 'l' then some '\n'
  else if c = 'R' ∨ c = 'r' then some '\r'
  else if c = 'T' ∨ c = 't' then some '\t'
  else if c = 'P' ∨ c = 'p' then some '\x0c'
  else none

/-- The character of a code given by two hexadecimal digits. -/
def codeEscape? (high low : Char) : Option Char :=
  (digitValue? 16 high).bind fun h => (digitValue? 16 low).map fun l => Char.ofNat (h * 16 + l)

/-- The text between the quotes of a literal with its escapes resolved. A dollar sign before
anything it does not know stands for nothing, and at the very end for itself. -/
def unquote : List Char → List Char
  | [] => []
  | ['$'] => ['$']
  | ['$', c] => [(letterEscape? c).getD c]
  | '$' :: c :: d :: rest =>
    match letterEscape? c, codeEscape? c d with
    | some control, _ => control :: unquote (d :: rest)
    | none, some coded => coded :: unquote rest
    | none, none => c :: unquote (d :: rest)
  | c :: rest => c :: unquote rest

/-- Scan a literal whose opening quote has been read: the text up to the closing quote and what
follows it. A literal ends on its line. -/
def takeQuoted? : List Char → Option (List Char × List Char)
  | [] => none
  | ['$'] => none
  | '$' :: c :: rest =>
    if c = '\n' then none
    else (takeQuoted? rest).map fun (inner, tail) => ('$' :: c :: inner, tail)
  | c :: rest =>
    if c = '\'' then some ([], rest)
    else if c = '\r' ∨ c = '\n' then none
    else (takeQuoted? rest).map fun (inner, tail) => (c :: inner, tail)

end PlcTypes.StructuredText
