import PlcTypes.Number.Integer
import PlcTypes.Yaml.BlockScalar
import PlcTypes.Yaml.Token

/-!
# Properties and directives

Anchors and aliases have names. A tag is given in full between angle brackets, or by a handle
and a suffix, or by a suffix alone. Directives stand before a document and give its version or
what a tag handle stands for.
-/

namespace PlcTypes.Yaml.Property

open Number

-- powers are those of the core library, whatever else is imported
attribute [local instance (high)] instPowNat

/-- Read the name of an anchor or an alias whose indicator has been passed. -/
def takeName? (cursor : Cursor) : Option (String × Cursor) :=
  let (name, cursor) := cursor.takeWhile isWordChar
  if name = [] then none
  else if atGap cursor.rest || cursor.rest.head?.any (fun c => c ∈ "?:,]\x7d%@`".toList) then
    some (String.ofList name, cursor)
  else none

/-- The characters of a tag, besides escapes. -/
def isTagChar (full : Bool) (c : Char) : Bool :=
  isWordChar c || c ∈ ";/?:@&=+$.!~*'()".toList || (full && (c == ',' || c == '[' || c == ']'))

/-- The number of bytes of a character whose first byte is given. -/
def width? (byte : Nat) : Option Nat :=
  if byte < 0x80 then some 1
  else if 0xC0 ≤ byte && byte < 0xE0 then some 2
  else if 0xE0 ≤ byte && byte < 0xF0 then some 3
  else if 0xF0 ≤ byte && byte < 0xF8 then some 4
  else none

/-- The byte of an escape at the front of a text. -/
def escapedByte? : List Char → Option (Nat × List Char)
  | '%' :: high :: low :: rest => (readDigits 16 [high, low]).map fun byte => (byte, rest)
  | _ => none

/-- Read escapes of the further bytes of a character, and add them to its bits so far. -/
def takeFurtherBytes? : Nat → Nat → List Char → Option (Nat × List Char)
  | 0, bits, text => some (bits, text)
  | count + 1, bits, text =>
    match escapedByte? text with
    | some (byte, rest) =>
      if 0x80 ≤ byte && byte < 0xC0 then takeFurtherBytes? count (bits * 64 + (byte - 0x80)) rest
      else none
    | none => none

/-- Read a character whose bytes are escaped. -/
def takeEscape? (text : List Char) : Option (Char × List Char) := do
  let (byte, rest) ← escapedByte? text
  let width ← width? byte
  let bits := if width = 1 then byte else byte % 2 ^ (7 - width)
  let (code, rest) ← takeFurtherBytes? (width - 1) bits rest
  some (Char.ofNat code, rest)

/-- Read the characters of a tag. -/
def takeTagCharsWithin (full : Bool) : Nat → List Char → Option (List Char × List Char)
  | 0, text => some ([], text)
  | fuel + 1, text =>
    match text with
    | [] => some ([], [])
    | c :: rest =>
      if c = '%' then do
        let (found, rest) ← takeEscape? text
        let (others, rest) ← takeTagCharsWithin full fuel rest
        some (found :: others, rest)
      else if isTagChar full c then
        (takeTagCharsWithin full fuel rest).map fun (others, rest) => (c :: others, rest)
      else some ([], text)

/-- Read the characters of a tag, of which there must be one unless the tag has started. -/
def takeTagChars? (full started : Bool) (cursor : Cursor) : Option (List Char × Cursor) :=
  match takeTagCharsWithin full cursor.rest.length cursor.rest with
  | none => none
  | some (found, rest) =>
    if found = [] && !started then none
    else some (found, cursor.skipMany (cursor.rest.length - rest.length))

/-- Read a tag handle: an exclamation mark, a word, and if it follows a second mark. -/
def takeHandle? (cursor : Cursor) : Option (List Char × Cursor) :=
  if cursor.startsWith '!' then
    let (word, cursor) := cursor.skip.takeWhile isWordChar
    if cursor.startsWith '!' then some ('!' :: (word ++ ['!']), cursor.skip)
    else some ('!' :: word, cursor)
  else none

/-- The token of a tag. -/
def tagToken (handle suffix : List Char) : Token :=
  .tag (String.ofList handle) (String.ofList suffix)

/-- Read a tag. What stands behind a first mark alone starts the suffix. -/
def takeTagBody? (cursor : Cursor) : Option (Token × Cursor) :=
  if cursor.rest.tail.head? = some '<' then do
    let (suffix, cursor) ← takeTagChars? true false (cursor.skipMany 2)
    if cursor.startsWith '>' then some (tagToken [] suffix, cursor.skip) else none
  else do
    let (handle, cursor) ← takeHandle? cursor
    if handle.length > 1 ∧ handle.getLast? = some '!' then do
      let (suffix, cursor) ← takeTagChars? false false cursor
      some (tagToken handle suffix, cursor)
    else do
      let (suffix, cursor) ← takeTagChars? false true cursor
      let suffix := handle.tail ++ suffix
      some (if suffix = [] then tagToken [] ['!'] else tagToken ['!'] suffix, cursor)

/-- Read a tag up to the gap that has to follow, or in flow layout a separator. -/
def takeTag? (inFlow : Bool) (cursor : Cursor) : Option (Token × Cursor) := do
  let (token, cursor) ← takeTagBody? cursor
  if (inFlow && cursor.startsWith ',') || atGap cursor.rest then some (token, cursor) else none

/-- Read a part of a version: one to nine digits. -/
def takeVersionNumber? (cursor : Cursor) : Option (Nat × Cursor) := do
  let (digits, cursor) := cursor.takeWhile Char.isDigit
  if 9 < digits.length then none else some (← readDigits 10 digits, cursor)

/-- Read a directive whose indicator has been passed, up to the end of its line. -/
def takeDirective? (cursor : Cursor) : Option (Token × Cursor) := do
  let (name, cursor) := cursor.takeWhile isWordChar
  if !atGap cursor.rest then none
  else if name = "YAML".toList then do
    let (major, cursor) ← takeVersionNumber? (cursor.skipWhile isBlank)
    if cursor.startsWith '.' then do
      let (minor, cursor) ← takeVersionNumber? cursor.skip
      let cursor ← BlockScalar.takeLineEnd? cursor
      some (.version major minor, cursor)
    else none
  else if name = "TAG".toList then do
    let (handle, cursor) ← takeHandle? (cursor.skipWhile isBlank)
    if (handle = ['!'] || handle.getLast? = some '!') && cursor.rest.head?.any isBlank then do
      let (start, cursor) ← takeTagChars? true false (cursor.skipWhile isBlank)
      if atGap cursor.rest then do
        let cursor ← BlockScalar.takeLineEnd? cursor
        some (.tagPrefix (String.ofList handle) (String.ofList start), cursor)
      else none
    else none
  else none

end PlcTypes.Yaml.Property
