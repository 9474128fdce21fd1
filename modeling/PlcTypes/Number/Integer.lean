/-!
# Reading and writing whole numbers

A number is written with ASCII digits, most significant first. A signed text may carry one
plus or minus sign in front; what it says is a number only if it fits the width asked for, so
a text out of range is no number at all and never wraps.
-/

namespace PlcTypes.Number

-- powers are those of the core library, whatever else is imported
attribute [local instance (high)] instPowNat

/-- The value of an ASCII digit in a base of at most sixteen. -/
def digitValue? (base : Nat) (c : Char) : Option Nat :=
  let n := c.toNat
  let value :=
    if 0x30 ≤ n && n ≤ 0x39 then n - 0x30
    else if 0x41 ≤ n && n ≤ 0x46 then n - 0x37
    else if 0x61 ≤ n && n ≤ 0x66 then n - 0x57
    else base
  if value < base then some value else none

/-- Read further digits after the value `read` of the digits so far. -/
def readDigitsFrom (base read : Nat) : List Char → Option Nat
  | [] => some read
  | c :: rest => (digitValue? base c).bind fun value => readDigitsFrom base (read * base + value) rest

/-- A number written with at least one digit and nothing else. -/
def readDigits (base : Nat) : List Char → Option Nat
  | [] => none
  | text => readDigitsFrom base 0 text

/-- Read a natural number with an optional plus sign. -/
def readUnsigned (base : Nat) : List Char → Option Nat
  | '+' :: text => readDigits base text
  | text => readDigits base text

/-- Read an integer with an optional sign. -/
def readSigned (base : Nat) : List Char → Option Int
  | '-' :: text => (readDigits base text).map fun n => -(n : Int)
  | text => (readUnsigned base text).map fun n => (n : Int)

/-- The 64-bit integer with a given value, if there is one. -/
def toInt64? (value : Int) : Option Int64 :=
  if -(2 ^ (63 : Nat) : Int) ≤ value ∧ value < 2 ^ (63 : Nat) then some (Int64.ofInt value) else none

/-- Read a decimal integer of 64 bits. -/
def readInt64 (text : List Char) : Option Int64 := (readSigned 10 text).bind toInt64?

/-- Read a decimal natural number below `2 ^ 64`. -/
def readUInt64 (text : List Char) : Option Nat :=
  (readUnsigned 10 text).filter (· < 2 ^ (64 : Nat))

/-- The decimal spelling of a 64-bit integer. -/
def showInt64 (value : Int64) : String := toString value.toInt

end PlcTypes.Number
