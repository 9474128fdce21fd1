import PlcTypes.Number.Integer
import PlcTypes.Text.Ascii
import PlcTypes.Text.Digit
import PlcTypes.Text.Search
import PlcTypes.Text.Space

/-!
# Data types

A member has a scalar type, an array type with two 64-bit bounds, or refers to another type by
its name. A spelling of a type is peeled array level by array level; what is left is a leaf,
and only the reading of leaves differs between the notations. Reading the canonical spelling
fails only on array bounds: one that is no 64-bit integer, or an upper one below the lower one.
-/

namespace PlcTypes

open Text Number

-- powers are those of the core library, whatever else is imported
attribute [local instance (high)] instPowNat

/-- The scalar types. -/
inductive ScalarKind where
  | bool
  | int
  | dint
  | lint
  | real
  | string
  deriving DecidableEq, Repr

namespace ScalarKind

/-- All scalar types. -/
def all : List ScalarKind := [bool, int, dint, lint, real, string]

/-- The canonical keyword. -/
def keyword : ScalarKind → String
  | bool => "BOOL"
  | int => "INT"
  | dint => "DINT"
  | lint => "LINT"
  | real => "REAL"
  | string => "STRING"

/-- The types that hold integers. -/
def isInteger : ScalarKind → Bool
  | int | dint | lint => true
  | _ => false

/-- The types that hold numbers. -/
def isNumeric (kind : ScalarKind) : Bool := kind.isInteger || kind == real

end ScalarKind

/-- What can be wrong with the bounds of an array. -/
inductive BoundError where
  | inverted (lower upper : Int64)
  | unreadable (bound : String)
  deriving DecidableEq, Repr

/-- The report of a bound error. -/
def BoundError.message : BoundError → String
  | inverted lower upper =>
    "Invalid array bounds [" ++ showInt64 lower ++ ".." ++ showInt64 upper ++
      "]: upper bound is below lower bound"
  | unreadable bound => "Array bound out of range: " ++ bound

/-- The type of a member. A name is a reference that is never looked up. -/
inductive DataType where
  | scalar (kind : ScalarKind)
  | array (base : DataType) (lower upper : Int64)
  | named (name : String)
  deriving DecidableEq, Repr

namespace DataType

/-- The scalar type, if it is one. -/
def scalarKind? : DataType → Option ScalarKind
  | scalar kind => some kind
  | _ => none

/-- Whether this is the type of texts. -/
def isString (type : DataType) : Bool := type == scalar .string

/-- Whether this is an array type. -/
def isArray : DataType → Bool
  | array .. => true
  | _ => false

/-- An array between two bounds, which must be in order. -/
def arrayOf (base : DataType) (lower upper : Int64) : Except BoundError DataType :=
  if upper < lower then .error (.inverted lower upper) else .ok (.array base lower upper)

/-- An array of `count` elements numbered from zero. -/
def sized (base : DataType) (count : Nat) : Except BoundError DataType :=
  match toInt64? count with
  | some size => base.arrayOf 0 (size - 1)
  | none => .error (.unreadable (toString count))

/-- The number of elements of an array, if it fits 64 bits. -/
def elementCount? : DataType → Option Nat
  | array _ lower upper => some ((upper.toInt - lower.toInt).natAbs + 1) |>.filter (· < 2 ^ (64 : Nat))
  | _ => none

/-- Spell a type with the given words for scalar types, for arrays and before the base type. -/
def spellWith (keyword : ScalarKind → String) (arrayWord ofWord : String) : DataType → String
  | scalar kind => keyword kind
  | array base lower upper =>
    arrayWord ++ "[" ++ showInt64 lower ++ ".." ++ showInt64 upper ++ "] " ++ ofWord ++ " " ++
      spellWith keyword arrayWord ofWord base
  | named name => name

/-- The canonical spelling. -/
def spelling : DataType → String := spellWith ScalarKind.keyword "ARRAY" "OF"

end DataType

/-- The three texts at the outer level of an array spelling. -/
structure ArrayHead where
  lower : List Char
  upper : List Char
  base : List Char
  deriving DecidableEq, Repr

/-- A run of at least one decimal digit of any script at the front of a text. -/
def takeDigits? (text : List Char) : Option (List Char × List Char) :=
  match text.takeWhile isDecimalDigit with
  | [] => none
  | found => some (found, text.dropWhile isDecimalDigit)

/-- A bound at the front of a text: digits, with an optional minus sign. -/
def takeBound? : List Char → Option (List Char × List Char)
  | '-' :: text => (takeDigits? text).map fun (found, rest) => ('-' :: found, rest)
  | text => takeDigits? text

/-- Peel one array level off a trimmed spelling: the word for arrays, two bounds in brackets
with two dots between them, the word before the base type, white space, and the base on what
is left of the line. The words are read in any letter case. -/
def arrayHead? (text : List Char) : Option ArrayHead := do
  let text ← afterIgnoringCase? "ARRAY".toList text
  let text ← after? ['['] (text.dropWhile isSpace)
  let (lower, text) ← takeBound? (text.dropWhile isSpace)
  let text ← after? ['.', '.'] (text.dropWhile isSpace)
  let (upper, text) ← takeBound? (text.dropWhile isSpace)
  let text ← after? [']'] (text.dropWhile isSpace)
  let text ← afterIgnoringCase? "OF".toList (text.dropWhile isSpace)
  let base := text.dropWhile isSpace
  if base.length < text.length ∧ base ≠ [] ∧ '\n' ∉ base then some ⟨lower, upper, base⟩ else none

/-- What follows a run of digits is no longer than the text. -/
theorem length_takeDigits? {text found rest : List Char} (h : takeDigits? text = some (found, rest)) :
    rest.length ≤ text.length := by
  unfold takeDigits? at h
  split at h
  · simp at h
  · simp only [Option.some.injEq, Prod.mk.injEq] at h
    simpa only [← h.2] using length_dropWhile_le isDecimalDigit text

/-- What follows a bound is no longer than the text. -/
theorem length_takeBound? {text found rest : List Char} (h : takeBound? text = some (found, rest)) :
    rest.length ≤ text.length := by
  unfold takeBound? at h
  split at h
  · obtain ⟨⟨ds, tail⟩, hd, ht⟩ := Option.map_eq_some_iff.mp h
    simp only [Prod.mk.injEq] at ht
    have := length_takeDigits? hd
    simp only [← ht.2, List.length_cons]
    omega
  · exact length_takeDigits? h

/-- The base of an array spelling is shorter than the spelling. -/
theorem arrayHead?_base_length {text : List Char} {head : ArrayHead}
    (h : arrayHead? text = some head) : head.base.length < text.length := by
  simp only [arrayHead?, bind, Option.bind_eq_some_iff] at h
  obtain ⟨t₁, h₁, t₂, h₂, ⟨lower, t₃⟩, h₃, t₄, h₄, ⟨upper, t₅⟩, h₅, t₆, h₆, t₇, h₇, h⟩ := h
  have l₁ := length_afterIgnoringCase? h₁
  have l₂ := length_after? h₂
  have l₃ := length_takeBound? h₃
  have l₄ := length_after? h₄
  have l₅ := length_takeBound? h₅
  have l₆ := length_after? h₆
  have l₇ := length_afterIgnoringCase? h₇
  have d₁ := length_dropWhile_le isSpace t₁
  have d₂ := length_dropWhile_le isSpace t₂
  have d₃ := length_dropWhile_le isSpace t₃
  have d₄ := length_dropWhile_le isSpace t₄
  have d₅ := length_dropWhile_le isSpace t₅
  have d₆ := length_dropWhile_le isSpace t₆
  split at h
  · rename_i short
    simp only [Option.some.injEq] at h
    subst h
    simp only [List.length_cons, List.length_nil] at l₂ l₄ l₆
    have := short.1
    simp only
    omega
  · simp at h

/-- Read the text of a bound. -/
def readBound (text : List Char) : Except BoundError Int64 :=
  match readInt64 text with
  | some bound => .ok bound
  | none => .error (.unreadable (String.ofList text))

namespace DataType

/-- Decode a spelling, given how to read the leaf under all array levels. On each level the
bounds are read on the way in and compared on the way out. -/
def decodeWith (leaf : List Char → DataType) (text : List Char) : Except BoundError DataType :=
  match h : arrayHead? (trim text) with
  | none => .ok (leaf (trim text))
  | some head =>
    have : head.base.length < text.length :=
      Nat.lt_of_lt_of_le (arrayHead?_base_length h) (length_trim_le text)
    do
      let lower ← readBound head.lower
      let upper ← readBound head.upper
      let base ← decodeWith leaf head.base
      base.arrayOf lower upper
termination_by text.length

/-- A leaf in canonical spelling: a scalar keyword in capitals, or else a name. -/
def canonicalLeaf (text : List Char) : DataType :=
  match ScalarKind.all.find? fun kind => kind.keyword.toList == text with
  | some kind => .scalar kind
  | none => .named (String.ofList text)

/-- Decode a canonical spelling. -/
def ofChars (text : List Char) : Except BoundError DataType := decodeWith canonicalLeaf text

/-- Decode a canonical spelling. -/
def ofSpelling (text : String) : Except BoundError DataType := ofChars text.toList

end DataType

end PlcTypes
