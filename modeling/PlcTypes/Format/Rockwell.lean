import PlcTypes.Definition
import PlcTypes.Format.Markup
import PlcTypes.Log
import PlcTypes.Vendor

/-!
# Rockwell data type exports

Members carry no initial values, and an array is written as the number of its elements behind
the base type, so arrays are read back as numbered from zero. An array with too many elements
to count keeps its canonical spelling. A member's element count may also be given apart from
its type; it counts only where the type is no array already. What is lost of a type in writing is
logged.
-/

namespace PlcTypes.Rockwell

open Text Number Markup

/-- The scalar types by their keyword in any letter case. Single bits are truth values. -/
def leaf (token : List Char) : DataType :=
  if sameIgnoringCase token "BIT".toList then .scalar .bool
  else
    match ScalarKind.all.find? fun kind => sameIgnoringCase kind.keyword.toList token with
    | some kind => .scalar kind
    | none => .named (String.ofList token)

/-- The base and the size of a spelling with a size in brackets at its end. -/
def sizedHead? (text : List Char) : Option (List Char × List Char) := do
  let (base, inside) ← cutLast? '[' text
  let (size, rest) ← takeDigits? (inside.dropWhile isSpace)
  if rest.dropWhile isSpace = [']'] ∧ base ≠ [] ∧ '\n' ∉ base then some (base, size) else none

/-- What stands before the last occurrence of a character is shorter than the text. -/
theorem length_cutLast? {mark : Char} {text before tail : List Char}
    (h : cutLast? mark text = some (before, tail)) : before.length < text.length := by
  induction text generalizing before tail with
  | nil => simp [cutLast?] at h
  | cons c rest ih =>
    simp only [cutLast?] at h
    split at h
    · rename_i first last hcut
      simp only [Option.some.injEq, Prod.mk.injEq] at h
      have := ih hcut
      simp only [← h.1, List.length_cons]
      omega
    · split at h
      · simp only [Option.some.injEq, Prod.mk.injEq] at h
        simp [← h.1]
      · simp at h

/-- The base of a sized spelling is shorter than the spelling. -/
theorem sizedHead?_base_length {text base size : List Char}
    (h : sizedHead? text = some (base, size)) : base.length < text.length := by
  simp only [sizedHead?, bind, Option.bind_eq_some_iff] at h
  obtain ⟨⟨before, inside⟩, hcut, ⟨digits, rest⟩, _, h⟩ := h
  split at h
  · simp only [Option.some.injEq, Prod.mk.injEq] at h
    exact h.1 ▸ length_cutLast? hcut
  · simp at h

/-- Read a type: sizes from the right, and under them a canonical array spelling or a leaf. -/
def readType (text : List Char) : Except BoundError DataType :=
  match h : sizedHead? (trim text) with
  | some (base, size) =>
    have : base.length < text.length :=
      Nat.lt_of_lt_of_le (sizedHead?_base_length h) (length_trim_le text)
    match readUInt64 size with
    | none => .error (.unreadable (String.ofList size))
    | some count => do (← readType base).sized count
  | none =>
    if (afterIgnoringCase? "ARRAY".toList (trim text)).isSome then DataType.ofChars (trim text)
    else .ok (leaf (trim text))
termination_by text.length

/-- Write a type, and the element count that is given apart from it, zero for none. -/
def writeType : DataType → String × Nat
  | .scalar kind => (kind.keyword, 0)
  | .named name => (name, 0)
  | .array base lower upper =>
    match (DataType.array base lower upper).elementCount? with
    | some count => ((writeType base).1 ++ "[" ++ toString count ++ "]", count)
    | none => ((DataType.array base lower upper).spelling, 0)

/-- What is logged when a type is written, from the outermost array on to the first one that has too
many elements to count. -/
def typeLog : DataType → List LogRecord
  | .array base lower upper =>
    match (DataType.array base lower upper).elementCount? with
    | some _ => (if lower = 0 then [] else [.lowerBoundLost lower]) ++ typeLog base
    | none => [.uncounted (.array base lower upper)]
  | .scalar _ | .named _ => []

/-- How the values of a type are displayed. -/
def radix? : DataType → Option String
  | .scalar .real => some "Float"
  | .scalar .string => none
  | .scalar _ => some "Decimal"
  | .array base _ _ => radix? base
  | .named _ => none

/-- The attributes of a member that matter. -/
structure MemberHead where
  name : Option (List Char)
  type : Option (List Char)
  dimension : Nat
  hidden : Bool

/-- The first of the element counts of an attribute with commas, zero if it is no number. -/
def firstDimension (value : List Char) : Nat :=
  (readUInt64 (trim (value.takeWhile (· != ',')))).getD 0

/-- Take one attribute into account. The last one of a key decides. -/
def MemberHead.take (head : MemberHead) : List Char × List Char → MemberHead
  | (key, value) =>
    if key = "Name".toList then { head with name := some value }
    else if key = "DataType".toList then { head with type := some value }
    else if key = "Dimension".toList then { head with dimension := firstDimension value }
    else if key = "Hidden".toList then { head with hidden := sameIgnoringCase value "true".toList }
    else head

/-- Read the attributes of a member. -/
def MemberHead.of (text : List Char) : MemberHead :=
  (attributes text).foldl take ⟨none, none, 0, false⟩

/-- The type of a member, wrapped into an array if there is an element count apart from it. -/
def MemberHead.readType (type : List Char) (dimension : Nat) : Except BoundError DataType := do
  let type ← Rockwell.readType type
  if 0 < dimension && !type.isArray then type.sized dimension else return type

/-- Read a member. A hidden one is none. -/
def readMember (element : Element) : Except FormatError (Option Member) :=
  let head := MemberHead.of element.head
  match head.name with
  | none => .error (.badMember .rockwell "" .noName)
  | some name =>
    let name := String.ofList name
    if head.hidden then .ok none
    else
      match head.type with
      | none => .error (.badMember .rockwell name .noType)
      | some type =>
        match MemberHead.readType type head.dimension with
        | .error error => .error (.badMember .rockwell name (.bounds error))
        | .ok type =>
          let description := (element.body.bind (firstElement? "Description")).getD []
          .ok (some (.of name type none (String.ofList description)))

/-- Recognise the head of a data type and read the name. -/
def head? (text : List Char) : Option (List Char × List Char) := do
  let text ← after? "<DataType".toList text
  if startsWithSpace text then do
    let text ← after? "Name=\"".toList (text.dropWhile isSpace)
    let (name, text) ← cut? ['"'] text
    let (_, rest) ← cut? ['>'] text
    some (unescape name, rest)
  else none

/-- What stands before the first member. -/
def beforeMembers (body : List Char) : List Char :=
  ((cut? "<Member".toList body).map Prod.fst).getD body

/-- Read a data type export. -/
def parse (text : String) : Except FormatError Definition :=
  match find? (fun _ => head?) none text.toList with
  | none => .error (.noDeclaration .rockwell)
  | some hit =>
    let description := (firstElement? "Description" (beforeMembers hit.rest)).getD []
    ((findAll (takeElement? "Member") hit.rest).mapM readMember).map fun members =>
      (Definition.bare (String.ofList hit.found) (String.ofList description)).pushAll
        (members.filterMap id)

/-- A text as an attribute value. -/
def attributeText (text : String) : String := String.ofList (escape text.toList)

/-- The attribute that says how values are displayed. -/
def radixPart (type : DataType) : String :=
  match radix? type with
  | some radix => " Radix=\"" ++ radix ++ "\""
  | none => ""

/-- The body and the end of a member element. -/
def bodyPart (description : String) : String :=
  if description.isEmpty then "/>\n"
  else
    ">\n            " ++ element "Description" description ++ "\n          </Member>\n"

/-- Write a member. -/
def writeMember (member : Member) : String :=
  let (type, dimension) := writeType member.type
  "          <Member Name=\"" ++ attributeText member.name ++ "\" DataType=\"" ++
    attributeText type ++ "\" Dimension=\"" ++ toString dimension ++ "\"" ++
    radixPart member.type ++ " Hidden=\"false\" ExternalAccess=\"Read/Write\"" ++
    bodyPart member.description

/-- The description of the data type. -/
def descriptionPart (description : String) : String :=
  if description.isEmpty then "" else "        " ++ element "Description" description ++ "\n"

/-- Write a data type export. -/
def generate (d : Definition) : String :=
  "<?xml version=\"1.0\" encoding=\"UTF-8\" standalone=\"yes\"?>\n" ++
    "<RSLogix5000Content SchemaRevision=\"1.0\" SoftwareRevision=\"32.00\">\n" ++
    "  <Controller Use=\"Context\" Name=\"MainController\">\n" ++
    "    <DataTypes Use=\"Context\">\n" ++
    "      <DataType Name=\"" ++ attributeText d.name ++ "\" Family=\"NoFamily\" Class=\"User\">\n" ++
    descriptionPart d.description ++
    "        <Members>\n" ++ String.join (d.members.map writeMember) ++ "        </Members>\n" ++
    "      </DataType>\n" ++
    "    </DataTypes>\n" ++
    "  </Controller>\n" ++
    "</RSLogix5000Content>\n"

/-- What is logged when a data type export is written. -/
def generateLog (d : Definition) : List LogRecord :=
  d.members.flatMap fun member => typeLog member.type

end PlcTypes.Rockwell
