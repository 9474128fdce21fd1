import PlcTypes.Text.Search
import PlcTypes.Text.Space

/-!
# Markup text

Attribute values are escaped with entities. Descriptions stand in character data sections; a
text that holds the end of a section is spread over two of them, and reading joins all the
sections of an element again.
-/

namespace PlcTypes.Markup

open Text

/-- A character as it is written in an attribute value. -/
def escapeChar (c : Char) : List Char :=
  if c = '&' then "&amp;".toList
  else if c = '<' then "&lt;".toList
  else if c = '>' then "&gt;".toList
  else if c = '"' then "&quot;".toList
  else [c]

/-- A text as an attribute value. -/
def escape (text : List Char) : List Char := text.flatMap escapeChar

/-- The text of an attribute value. An ampersand that starts no known entity stays. -/
def unescape : List Char → List Char
  | '&' :: 'q' :: 'u' :: 'o' :: 't' :: ';' :: rest => '"' :: unescape rest
  | '&' :: 'a' :: 'p' :: 'o' :: 's' :: ';' :: rest => '\'' :: unescape rest
  | '&' :: 'l' :: 't' :: ';' :: rest => '<' :: unescape rest
  | '&' :: 'g' :: 't' :: ';' :: rest => '>' :: unescape rest
  | '&' :: 'a' :: 'm' :: 'p' :: ';' :: rest => '&' :: unescape rest
  | c :: rest => c :: unescape rest
  | [] => []

/-- What opens a character data section. -/
def sectionStart : List Char := "<![CDATA[".toList

/-- What closes a character data section. -/
def sectionEnd : List Char := "]]>".toList

/-- Close and open a section inside everything that would close it. -/
def splitSections : List Char → List Char
  | ']' :: ']' :: '>' :: rest => "]]]]><![CDATA[>".toList ++ splitSections rest
  | c :: rest => c :: splitSections rest
  | [] => []

/-- A text as character data. -/
def characterData (text : List Char) : List Char := sectionStart ++ splitSections text ++ sectionEnd

/-- Recognise a character data section and read its text. -/
def section? (text : List Char) : Option (List Char × List Char) :=
  (after? sectionStart text).bind (cut? sectionEnd)

/-- The trimmed text of an element: that of its sections, or if it has none its own. -/
def elementText (body : List Char) : List Char :=
  match findAll section? body with
  | [] => unescape (trim body)
  | sections => trim sections.flatten

/-- An element with one text in character data. -/
def element (name : String) (text : String) : String :=
  "<" ++ name ++ ">" ++ String.ofList (characterData text.toList) ++ "</" ++ name ++ ">"

/-- The text of the first element of a name. -/
def firstElement? (name : String) (text : List Char) : Option (List Char) :=
  (between? ("<" ++ name ++ ">").toList ("</" ++ name ++ ">").toList text).map elementText

/-- Recognise an attribute and read its key and its value. -/
def attribute? (text : List Char) : Option ((List Char × List Char) × List Char) :=
  match text.takeWhile Char.isAlpha with
  | [] => none
  | key => do
    let text ← after? ['='] ((text.dropWhile Char.isAlpha).dropWhile isSpace)
    let text ← after? ['"'] (text.dropWhile isSpace)
    let (value, rest) ← cut? ['"'] text
    some ((key, unescape value), rest)

/-- The attributes in the head of an element, in order. -/
def attributes (head : List Char) : List (List Char × List Char) := findAll attribute? head

/-- An element at the front of a text: what stands in its head, and its body if it has one. -/
structure Element where
  head : List Char
  body : Option (List Char)

/-- Recognise an element of a name that has attributes. Its head ends at the first closing
angle bracket, and its body at the first closing tag. -/
def takeElement? (name : String) (text : List Char) : Option (Element × List Char) :=
  (after? ("<" ++ name).toList text).bind fun text =>
    if startsWithSpace text then
      let head := (text.dropWhile isSpace).takeWhile (· != '>')
      match (text.dropWhile isSpace).dropWhile (· != '>') with
      | [] => none
      | _ :: rest =>
        if head.getLast? = some '/' then some (⟨head.dropLast, none⟩, rest)
        else
          (cut? ("</" ++ name ++ ">").toList rest).map fun (body, rest) => (⟨head, some body⟩, rest)
    else none

end PlcTypes.Markup
