/-!
# Double precision numbers

A finite number is a sign, an exponent field and a fraction field; every combination of them
is a different number, and its magnitude is a whole multiple of `2 ^ -1074`. That multiple is
its number of units, so comparing and rounding need no arithmetic but that of natural numbers.
The main definition rounds a fraction of two natural numbers to the nearest number, ties to
the even one, which is what reading a decimal text or widening an integer comes down to.
-/

namespace PlcTypes.Number

-- powers are those of the core library, whatever else is imported
attribute [local instance (high)] instPowNat

/-- A double precision number. The exponent field of all ones marks the last two cases. -/
inductive Binary64 where
  | finite (negative : Bool) (exponent : Fin 2047) (fraction : Fin (2 ^ (52 : Nat)))
  | infinite (negative : Bool)
  | nan
  deriving DecidableEq, Repr

namespace Binary64

/-- The numbers other than the infinities and the one that is no number. -/
def isFinite : Binary64 → Bool
  | finite .. => true
  | _ => false

/-- The digits before the scaling by a power of two, with the leading one restored. -/
def significand (exponent : Fin 2047) (fraction : Fin (2 ^ (52 : Nat))) : Nat :=
  if exponent.val = 0 then fraction.val else 2 ^ (52 : Nat) + fraction.val

/-- The binary logarithm of the units in the last place. -/
def scale (exponent : Fin 2047) : Nat := exponent.val - 1

/-- The magnitude of a finite number as a multiple of `2 ^ -1074`. -/
def units (exponent : Fin 2047) (fraction : Fin (2 ^ (52 : Nat))) : Nat :=
  significand exponent fraction * 2 ^ scale exponent

/-- The number of magnitude `significand * 2 ^ scale` units, or an infinity if that is too
large. The significand is below `2 ^ 53`, and below `2 ^ 52` only at scale zero. -/
def ofParts (negative : Bool) (significand scale : Nat) : Binary64 :=
  if h : significand < 2 ^ (52 : Nat) then finite negative 0 ⟨significand, h⟩
  else if h : scale + 1 < 2047 then
    finite negative ⟨scale + 1, h⟩
      ⟨(significand - 2 ^ (52 : Nat)) % 2 ^ (52 : Nat), Nat.mod_lt _ (by decide)⟩
  else infinite negative

/-- The quotient of two natural numbers rounded to a whole number, a half to the even one. -/
def roundDiv (numerator denominator : Nat) : Nat :=
  let quotient := numerator / denominator
  let twice := 2 * (numerator % denominator)
  if twice > denominator || (twice == denominator && quotient % 2 == 1) then quotient + 1
  else quotient

/-- The number nearest to a fraction, a tie going to the even significand. -/
def nearest (negative : Bool) (numerator denominator : Nat) : Binary64 :=
  let scaled := numerator * 2 ^ (1074 : Nat)
  let scale := Nat.log2 (scaled / denominator) - 52
  let rounded := roundDiv scaled (denominator * 2 ^ scale)
  if rounded = 2 ^ (53 : Nat) then ofParts negative (2 ^ (52 : Nat)) (scale + 1)
  else ofParts negative rounded scale

/-- The number nearest to an integer. -/
def ofInt (value : Int) : Binary64 := nearest (value < 0) value.natAbs 1

/-- The whole magnitude of a finite number that has no fractional part. -/
def wholePart? (exponent : Fin 2047) (fraction : Fin (2 ^ (52 : Nat))) : Option Nat :=
  let n := units exponent fraction
  if n % 2 ^ (1074 : Nat) = 0 then some (n / 2 ^ (1074 : Nat)) else none

end Binary64

end PlcTypes.Number
