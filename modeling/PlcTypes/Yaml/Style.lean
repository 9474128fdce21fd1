import PlcTypes.StructuredText.Quoted
import PlcTypes.Yaml.Character
import PlcTypes.Yaml.Scalar

/-!
# Styles of written texts

A text is written plainly where that reads back as the same text; else between single quotes,
which only double the quote; else between double quotes, which escape everything that cannot
be printed. A text with line feeds is written literally, line by line under a header that says
how it ends, unless a space at the end of a line or at its own end forbids it.
-/

namespace PlcTypes.Yaml

/-- How a text is written. -/
inductive Style where
  | plain
  | single
  | double
  | literal
  deriving DecidableEq, Repr

namespace Style

/-- Whether somewhere a character that satisfies `p` is followed by one that satisfies `q`. -/
def followedBy (p q : Char → Bool) : List Char → Bool
  | c :: d :: rest => (p c && q d) || followedBy p q (d :: rest)
  | _ => false

/-- A space, the only blank that can stand outside double quotes. -/
def isSpace (c : Char) : Bool := c == ' '

/-- Whether a text can stand only between double quotes: it holds a character that is not
printable, or a space before a line break. -/
def needsEscapes (text : List Char) : Bool :=
  text.any (fun c => !isPrintable c) || followedBy isSpace isBreak text

/-- Whether a text can stand between single quotes. -/
def allowsSingle (text : List Char) : Bool :=
  !needsEscapes text && !followedBy isBreak isSpace text

/-- Whether a text can be written literally. -/
def allowsLiteral (text : List Char) : Bool := !needsEscapes text && text.getLast? != some ' '

/-- Whether the start of a text would not be taken for the start of a plain scalar. -/
def startsWithIndicator : List Char → Bool
  | '-' :: '-' :: '-' :: _ => true
  | '.' :: '.' :: '.' :: _ => true
  | c :: rest =>
    c ∈ "#,[]\x7b\x7d&*!|>'\"%@`".toList || ((c == '?' || c == '-' || c == ':') && atGap rest)
  | [] => false

/-- Whether a plain text would end early: at a colon before a gap or at a comment. -/
def endsEarly : List Char → Bool
  | [] => false
  | ':' :: rest => atGap rest || endsEarly rest
  | ' ' :: '#' :: _ => true
  | _ :: rest => endsEarly rest

/-- Whether a text can be written plainly. -/
def allowsPlain (text : List Char) : Bool :=
  allowsSingle text && !text.any isBreak && text.head? != some ' ' && text.getLast? != some ' ' &&
    !startsWithIndicator text && !endsEarly text

/-- The style of a text. -/
def of (text : List Char) : Style :=
  if '\n' ∈ text then if allowsLiteral text then literal else double
  else if Scalar.ofPlain text = .string && !Scalar.hasLeadingZero text && allowsPlain text then plain
  else if allowsSingle text then single
  else double

/-- Spaces up to a column. -/
def indentation (indent : Nat) : List Char := List.replicate indent ' '

/-- Write a text with an indentation in front of every character that starts a line, except for
line breaks. The flag says whether the text is at the start of a line. -/
def indented (indent : Nat) : Bool → List Char → List Char
  | _, [] => []
  | atStart, c :: rest =>
    if isBreak c then c :: indented indent true rest
    else (if atStart then indentation indent else []) ++ c :: indented indent false rest

/-- Double every single quote. -/
def doubleQuotes (text : List Char) : List Char :=
  text.flatMap fun c => if c = '\'' then ['\'', '\''] else [c]

/-- A text between single quotes. Behind a line break the next line is indented, or if nothing
comes any more the closing quote. -/
def singleQuoted (indent : Nat) (text : List Char) : List Char :=
  '\'' :: (indented indent false (doubleQuotes text) ++
    (if text.getLast?.any isBreak then indentation indent else []) ++ ['\''])

/-- The given number of hexadecimal digits in capitals. -/
def hexDigits : Nat → Nat → List Char
  | 0, _ => []
  | count + 1, n => hexDigits count (n / 16) ++ [StructuredText.hexDigit n]

/-- The letter that escapes a character of its own. -/
def escapeLetter? (c : Char) : Option Char :=
  match c.toNat with
  | 0x00 => some '0'
  | 0x07 => some 'a'
  | 0x08 => some 'b'
  | 0x09 => some 't'
  | 0x0A => some 'n'
  | 0x0B => some 'v'
  | 0x0C => some 'f'
  | 0x0D => some 'r'
  | 0x1B => some 'e'
  | 0x22 => some '"'
  | 0x5C => some '\\'
  | 0x85 => some 'N'
  | 0x2028 => some 'L'
  | 0x2029 => some 'P'
  | _ => none

/-- A character as it is written between double quotes. -/
def escapeChar (c : Char) : List Char :=
  match escapeLetter? c with
  | some letter => ['\\', letter]
  | none =>
    if isPrintable c then [c]
    else if c.toNat < 0x100 then '\\' :: 'x' :: hexDigits 2 c.toNat
    else if c.toNat < 0x10000 then '\\' :: 'u' :: hexDigits 4 c.toNat
    else '\\' :: 'U' :: hexDigits 8 c.toNat

/-- A text between double quotes. -/
def doubleQuoted (text : List Char) : List Char := '"' :: (text.flatMap escapeChar ++ ['"'])

/-- How the end of a literal text differs from one line break: there is none, or there are
more, or the text is nothing else. -/
def endMark (text : List Char) : List Char :=
  match text.reverse with
  | [] => ['-']
  | last :: before =>
    if !isBreak last then ['-']
    else
      match before with
      | [] => ['+']
      | c :: _ => if isBreak c then ['+'] else []

/-- What stands behind the bar of a literal text: the depth of its indentation if the text
itself starts with a space or a line break, and how it ends. -/
def header (text : List Char) : List Char :=
  (if text.head?.any fun c => c == ' ' || isBreak c then ['2'] else []) ++ endMark text

/-- A text written literally, with the line break behind it. -/
def literalText (indent : Nat) (text : List Char) : List Char :=
  '|' :: (header text ++ '\n' :: indented indent true text ++
    if text.getLast?.any isBreak then [] else ['\n'])

/-- A text in its style, with the line break behind it. -/
def write (indent : Nat) (text : List Char) : List Char :=
  match of text with
  | plain => text ++ ['\n']
  | single => singleQuoted indent text ++ ['\n']
  | double => doubleQuoted text ++ ['\n']
  | literal => literalText indent text

/-- A text as a key, which has to stay on its line. -/
def writeKey (text : List Char) : List Char :=
  match of text with
  | plain => text
  | single => if text.any isBreak then doubleQuoted text else singleQuoted 0 text
  | double | literal => doubleQuoted text

end Style

end PlcTypes.Yaml
