import PlcTypes.Number.Decimal

/-!
# The shortest decimal of a double precision number

Among the decimals that round to a number, the shortest are those on the coarsest grid of
multiples of a power of ten that has a point in the rounding interval. Only the two multiples
next to the number can be the first to fall into it. If both do, the nearer one is taken; a
number exactly half way between them is settled by the caller's tie rule.
-/

namespace PlcTypes.Number

-- powers are those of the core library, whatever else is imported
attribute [local instance (high)] instPowNat

/-- What to do with a number half way between two decimals of the same length. -/
inductive Tie where
  | up
  | even
  deriving DecidableEq, Repr

/-- The reals that round to a number, in quarters of a unit: the number itself, the ends of the
interval, and whether the ends belong to it. -/
structure RoundingInterval where
  value : Nat
  low : Nat
  high : Nat
  closed : Bool

namespace RoundingInterval

/-- The interval of a finite number. It reaches half way to the neighbours, and the neighbour
below a power of two is only half as far away. The ends round to an even significand. -/
def of (exponent : Fin 2047) (fraction : Fin (2 ^ (52 : Nat))) : RoundingInterval :=
  let step := 2 ^ Binary64.scale exponent
  let value := 4 * Binary64.units exponent fraction
  let below := if fraction.val = 0 && 1 < exponent.val then step else 2 * step
  ⟨value, value - below, value + 2 * step, fraction.val % 2 == 0⟩

/-- The interval in a finer measure. -/
def scale (interval : RoundingInterval) (factor : Nat) : RoundingInterval :=
  ⟨interval.value * factor, interval.low * factor, interval.high * factor, interval.closed⟩

/-- Whether a real lies in the interval. -/
def contains (interval : RoundingInterval) (x : Nat) : Bool :=
  if interval.closed then interval.low ≤ x && x ≤ interval.high
  else interval.low < x && x < interval.high

/-- The multiple of `10 ^ exponent` next to the value that lies in the interval, if one does. -/
def onGrid? (tie : Tie) (interval : RoundingInterval) (exponent : Int) : Option Decimal :=
  let interval := interval.scale (10 ^ (-exponent).toNat)
  let step := 2 ^ (1076 : Nat) * 10 ^ exponent.toNat
  let below := interval.value / step
  let twice := 2 * (interval.value % step)
  let takesUpper := twice > step || (twice == step && (tie == .up || below % 2 == 1))
  match interval.contains (below * step), interval.contains ((below + 1) * step) with
  | true, true => some ⟨if takesUpper then below + 1 else below, exponent⟩
  | true, false => some ⟨below, exponent⟩
  | false, true => some ⟨below + 1, exponent⟩
  | false, false => none

/-- The first hit on the `count` grids from `10 ^ (count - 344)` downwards. -/
def coarsest? (tie : Tie) (interval : RoundingInterval) : Nat → Option Decimal
  | 0 => none
  | count + 1 =>
    match interval.onGrid? tie ((count : Int) - 343) with
    | some d => some d
    | none => coarsest? tie interval count

end RoundingInterval

/-- The shortest decimal that rounds to the magnitude of a finite number. No number is as large
as `10 ^ 309`, and none needs a digit below `10 ^ -343`. -/
def shortest (tie : Tie) (exponent : Fin 2047) (fraction : Fin (2 ^ (52 : Nat))) : Decimal :=
  if Binary64.units exponent fraction = 0 then ⟨0, 0⟩
  else ((RoundingInterval.of exponent fraction).coarsest? tie 653).getD ⟨0, 0⟩

end PlcTypes.Number
