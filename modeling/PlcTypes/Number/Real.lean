import PlcTypes.Number.Shortest

/-!
# Spellings of real numbers

A plain spelling never has an exponent and always has a point, so it reads back as a real. It
gives whole numbers exactly and all others by their shortest decimal, a tie going up. The data
formats share a second spelling: the shortest decimal with ties to even, positional in the
middle range and with an exponent outside it.
-/

namespace PlcTypes.Number

-- powers are those of the core library, whatever else is imported
attribute [local instance (high)] instPowNat

/-- A minus sign in front of the spelling of a negative magnitude. -/
def signed (negative : Bool) (magnitude : List Char) : List Char :=
  if negative then '-' :: magnitude else magnitude

/-- The plain spelling of a real number. -/
def plainReal : Binary64 → List Char
  | .finite negative exponent fraction =>
    signed negative <|
      match Binary64.wholePart? exponent fraction with
      | some whole => digits whole ++ ['.', '0']
      | none => (shortest .up exponent fraction).positional
  | .infinite negative => signed negative ['i', 'n', 'f']
  | .nan => ['N', 'a', 'N']

/-- The spelling of a finite real in a data format: positional from `10 ^ -5` on and below
`10 ^ 16`, otherwise with an exponent, where `plus` stands before one that is not negative. -/
def dataReal (plus : List Char) (negative : Bool) (exponent : Fin 2047)
    (fraction : Fin (2 ^ (52 : Nat))) : List Char :=
  let d := shortest .even exponent fraction
  signed negative <|
    if -5 ≤ d.leading && d.leading < 16 then d.positional else d.scientific plus

end PlcTypes.Number
