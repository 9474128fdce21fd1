import PlcTypes.Number.Binary64
import PlcTypes.Number.Integer
import PlcTypes.Text.Ascii

/-!
# Decimal numbers

A decimal is a whole coefficient times a power of ten. It is read from a text with an optional
point and exponent, rounded to the nearest double precision number, and written positionally
or with an exponent.
-/

namespace PlcTypes.Number

-- powers are those of the core library, whatever else is imported
attribute [local instance (high)] instPowNat

/-- The number `coefficient * 10 ^ exponent`. -/
structure Decimal where
  coefficient : Nat
  exponent : Int
  deriving DecidableEq, Repr

/-- The decimal digits of a natural number. -/
def digits (n : Nat) : List Char := Nat.toDigits 10 n

namespace Decimal

/-- The double precision number nearest to a decimal. A coefficient of `n` digits lies below
`10 ^ n`, so far exponents are settled by the number of digits alone. -/
def toBinary64 (negative : Bool) (d : Decimal) : Binary64 :=
  let size : Int := (digits d.coefficient).length
  if d.coefficient = 0 || size + d.exponent < -330 then .nearest negative 0 1
  else if 310 < size + d.exponent then .infinite negative
  else if 0 ≤ d.exponent then .nearest negative (d.coefficient * 10 ^ d.exponent.toNat) 1
  else .nearest negative d.coefficient (10 ^ (-d.exponent).toNat)

/-- The digits a text starts with, and the rest. -/
def spanDigits (text : List Char) : List Char × List Char :=
  (text.takeWhile Char.isDigit, text.dropWhile Char.isDigit)

/-- The exponent that ends a text: nothing at all, or the letter e and a signed number. -/
def readExponent : List Char → Option Int
  | [] => some 0
  | c :: text => if c = 'e' || c = 'E' then readSigned 10 text else none

/-- Read a decimal: digits with at most one point among or around them, at least one digit in
all, and an optional exponent. -/
def read (text : List Char) : Option Decimal :=
  let (whole, tail) := spanDigits text
  let (fraction, tail) :=
    match tail with
    | '.' :: tail => spanDigits tail
    | _ => ([], tail)
  (readDigits 10 (whole ++ fraction)).bind fun coefficient =>
    (readExponent tail).map fun exponent => ⟨coefficient, exponent - fraction.length⟩

/-- The number of places before the point less one: the exponent of the leading digit. -/
def leading (d : Decimal) : Int := (digits d.coefficient).length + d.exponent - 1

/-- Write a decimal without an exponent and with at least one digit on both sides of the point. -/
def positional (d : Decimal) : List Char :=
  let ds := digits d.coefficient
  if 0 ≤ d.exponent then ds ++ List.replicate d.exponent.toNat '0' ++ ['.', '0']
  else
    let places := (-d.exponent).toNat
    let padded := List.replicate (places + 1 - ds.length) '0' ++ ds
    padded.take (padded.length - places) ++ '.' :: padded.drop (padded.length - places)

/-- Write a decimal as one leading digit, the others after a point, and the exponent with the
given sign in front of one that is not negative. -/
def scientific (plus : List Char) (d : Decimal) : List Char :=
  let mantissa :=
    match digits d.coefficient with
    | [] => []
    | [c] => [c]
    | c :: rest => c :: '.' :: rest
  let mark := if d.leading < 0 then ['-'] else plus
  mantissa ++ 'e' :: mark ++ digits d.leading.natAbs

end Decimal

/-- Read a real number: a decimal, an infinity or the value that is no number, with an optional
sign. Letter case does not matter in the names. -/
def readReal (text : List Char) : Option Binary64 :=
  let (negative, magnitude) :=
    match text with
    | '-' :: rest => (true, rest)
    | '+' :: rest => (false, rest)
    | _ => (false, text)
  if Text.sameIgnoringCase magnitude "nan".toList then some .nan
  else if Text.sameIgnoringCase magnitude "inf".toList ||
      Text.sameIgnoringCase magnitude "infinity".toList then some (.infinite negative)
  else (Decimal.read magnitude).map (Decimal.toBinary64 negative)

/-- Read a real number that is finite. -/
def readFiniteReal (text : List Char) : Option Binary64 :=
  (readReal text).filter Binary64.isFinite

end PlcTypes.Number
