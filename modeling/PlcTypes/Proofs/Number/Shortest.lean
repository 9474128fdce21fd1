import PlcTypes.Proofs.Number.Integer
import PlcTypes.Proofs.Number.Rounding

/-!
# The shortest decimal rounds to its number

Every decimal found on a grid lies in the rounding interval, and the finest grid always has a
point in it. A decimal in the interval of a number other than zero is neither too small nor too
large to be rounded, and it rounds to the number.
-/

namespace PlcTypes.Number

open Binary64

/-- The distance between two points of a grid over its denominator, in quarters of a unit. -/
@[irreducible] def gridStep (grid : Int) : Nat := 2 ^ 1076 * 10 ^ grid.toNat

/-- The denominator of a grid. -/
@[irreducible] def gridDenominator (grid : Int) : Nat := 10 ^ (-grid).toNat

/-- The step as it stands in the search. -/
theorem gridStep_def (grid : Int) : 2 ^ 1076 * 10 ^ grid.toNat = gridStep grid := by
  rw [gridStep]

/-- A unit has four quarters. -/
theorem gridStep_eq_units (grid : Int) :
    ∃ unit, 2 ^ 1074 = unit ∧ gridStep grid = 4 * (10 ^ grid.toNat * unit) := by
  refine ⟨2 ^ 1074, Eq.refl _, ?_⟩
  have hunit : (2 : Nat) ^ 1076 = 4 * 2 ^ 1074 := by decide +kernel
  rw [gridStep, hunit, Nat.mul_assoc, Nat.mul_comm (2 ^ 1074)]

/-- The denominator as it stands in the search. -/
theorem gridDenominator_def (grid : Int) : 10 ^ (-grid).toNat = gridDenominator grid := by
  rw [gridDenominator]

/-- A denominator is not zero. -/
theorem gridDenominator_pos (grid : Int) : 0 < gridDenominator grid := by
  rw [gridDenominator]
  exact Nat.pow_pos (by decide)

/-- A grid without a fractional part has whole steps. -/
theorem gridStep_mul_pow {grid : Int} (h : 0 ≤ grid) (k : Nat) :
    gridStep grid * 10 ^ k = gridStep (grid + k) := by
  rw [gridStep, gridStep, Nat.mul_assoc, ← Nat.pow_add, show (grid + k).toNat = grid.toNat + k by omega]

/-- A coarser grid has the larger steps. -/
theorem gridStep_mono {fine coarse : Int} (h : fine ≤ coarse) : gridStep fine ≤ gridStep coarse := by
  rw [gridStep, gridStep]
  exact Nat.mul_le_mul_left _ (Nat.pow_le_pow_right (by decide) (by omega))

/-- Below the units the step stays the same. -/
theorem gridStep_of_nonpos {grid : Int} (h : grid ≤ 0) : gridStep grid = gridStep 0 := by
  rw [gridStep, gridStep, show grid.toNat = (0 : Int).toNat by omega]

/-- A finer grid has the larger denominator. -/
theorem pow_mul_gridDenominator_le {coarse fine : Int} {k : Nat} (hcoarse : coarse ≤ 0)
    (h : fine + k ≤ coarse) : 10 ^ k * gridDenominator coarse ≤ gridDenominator fine := by
  rw [gridDenominator, gridDenominator, ← Nat.pow_add]
  exact Nat.pow_le_pow_right (by decide) (by omega)

namespace Decimal

/-- The magnitude of a decimal over its denominator, in quarters of a unit. -/
def quarters (d : Decimal) : Nat := d.coefficient * gridStep d.exponent

/-- The power of ten that a decimal is divided by. -/
def denominator (d : Decimal) : Nat := gridDenominator d.exponent

/-- A decimal in the rounding interval of a number. -/
def RoundsTo (exponent : Fin 2047) (fraction : Fin (2 ^ 52)) (d : Decimal) : Prop :=
  IsClose exponent fraction d.quarters d.denominator

end Decimal

variable {exponent : Fin 2047} {fraction : Fin (2 ^ 52)}

/-- The digits of a number other than zero are not all zero. -/
theorem significand_pos (hne : units exponent fraction ≠ 0) : 0 < significand exponent fraction :=
  Nat.pos_of_ne_zero fun hzero => hne (by rw [units, hzero, Nat.zero_mul])

namespace RoundingInterval

/-- The distance from the number to the lower end of the interval in its two spellings. -/
theorem below_eq (exponent : Fin 2047) (fraction : Fin (2 ^ 52)) :
    (if fraction.val = 0 && 1 < exponent.val then 2 ^ Binary64.scale exponent
      else 2 * 2 ^ Binary64.scale exponent) =
        lowerQuarters exponent fraction * 2 ^ Binary64.scale exponent := by
  by_cases h : fraction.val = 0 ∧ 1 < exponent.val
  · simp [lowerQuarters, h]
  · rw [lowerQuarters, if_neg h, if_neg (by simpa using h)]

/-- What the scaled interval of a number other than zero contains is close to the number. -/
theorem isClose_of_contains {n d : Nat} (hne : units exponent fraction ≠ 0) (hd : 0 < d)
    (h : ((RoundingInterval.of exponent fraction).scale d).contains n = true) :
    IsClose exponent fraction n d := by
  have hsig := significand_pos hne
  have hlower := (lowerQuarters_bounds exponent fraction).2
  have hplace : 0 < 2 ^ Binary64.scale exponent * d := Nat.mul_pos (Nat.two_pow_pos _) hd
  simp only [contains, RoundingInterval.scale, RoundingInterval.of, units, below_eq] at h
  rw [Nat.sub_mul, Nat.add_mul, Nat.mul_assoc 2, Nat.mul_assoc (lowerQuarters _ _),
    Nat.mul_assoc 4, Nat.mul_assoc (significand _ _)] at h
  have hroom := Nat.mul_le_mul_right (2 ^ Binary64.scale exponent * d)
    (show lowerQuarters exponent fraction ≤ 4 * significand exponent fraction by omega)
  rw [Nat.mul_assoc] at hroom
  have hhigh : (4 * significand exponent fraction + 2) * (2 ^ Binary64.scale exponent * d) =
      4 * (significand exponent fraction * (2 ^ Binary64.scale exponent * d)) +
        2 * (2 ^ Binary64.scale exponent * d) := by
    rw [Nat.add_mul, Nat.mul_assoc]
  split at h
  · rename_i heven
    rw [beq_iff_eq] at heven
    simp only [Bool.and_eq_true, decide_eq_true_eq] at h
    refine ⟨hd, ?_, ?_, fun _ => heven⟩
    · rw [hhigh]
      exact h.2
    · rw [Nat.mul_assoc]
      omega
  · simp only [Bool.and_eq_true, decide_eq_true_eq] at h
    refine ⟨hd, ?_, ?_, ?_⟩
    · rw [hhigh]
      omega
    · rw [Nat.mul_assoc]
      omega
    · rw [hhigh, Nat.mul_assoc]
      rintro (heq | heq) <;> omega

/-- A point strictly inside of an interval is contained in it. -/
theorem contains_of_between {interval : RoundingInterval} {n : Nat} (hlow : interval.low < n)
    (hhigh : n < interval.high) : interval.contains n = true := by
  rw [contains]
  split <;> simp only [Bool.and_eq_true, decide_eq_true_eq] <;> omega

/-- A decimal found on a grid is one of the grid and lies in the interval. -/
theorem onGrid?_spec {tie : Tie} {interval : RoundingInterval} {grid : Int} {d : Decimal}
    (h : interval.onGrid? tie grid = some d) :
    (interval.scale d.denominator).contains d.quarters = true := by
  unfold onGrid? at h
  simp only [gridStep_def, gridDenominator_def] at h
  split at h <;> simp only [Option.some.injEq, reduceCtorEq] at h <;> subst h <;>
    simp only [Decimal.quarters, Decimal.denominator]
  · rename_i hbelow habove
    split
    · exact habove
    · exact hbelow
  · assumption
  · assumption

/-- The first decimal found lies in the interval. -/
theorem coarsest?_spec {tie : Tie} {interval : RoundingInterval} {count : Nat} {d : Decimal}
    (h : interval.coarsest? tie count = some d) :
    (interval.scale d.denominator).contains d.quarters = true := by
  induction count with
  | zero => simp [coarsest?] at h
  | succ count ih =>
    rw [coarsest?] at h
    split at h
    · rename_i found hfound
      simp only [Option.some.injEq] at h
      exact onGrid?_spec (h ▸ hfound)
    · exact ih h

/-- A search that goes down to the finest grid finds something if there is something. -/
theorem coarsest?_ne_none {tie : Tie} {interval : RoundingInterval} (count : Nat)
    (h : interval.onGrid? tie (-343) ≠ none) : interval.coarsest? tie (count + 1) ≠ none := by
  induction count with
  | zero =>
    rw [coarsest?]
    split
    · simp
    · rename_i hnone
      exact absurd hnone h
  | succ count ih =>
    rw [coarsest?]
    split
    · simp
    · exact ih

/-- The interval of a number other than zero reaches at least two quarters to either side. -/
theorem margin (hne : units exponent fraction ≠ 0) :
    (RoundingInterval.of exponent fraction).low + 2 ≤ (RoundingInterval.of exponent fraction).value ∧
      (RoundingInterval.of exponent fraction).value + 2 ≤
        (RoundingInterval.of exponent fraction).high := by
  have hsig := significand_pos hne
  have hroom := Nat.mul_le_mul_right (2 ^ Binary64.scale exponent)
    (show 1 ≤ significand exponent fraction from hsig)
  have hplace := Nat.two_pow_pos (Binary64.scale exponent)
  simp only [RoundingInterval.of, below_eq, units]
  rw [lowerQuarters]
  split
  · rename_i hboundary
    have hscale : 2 ^ Binary64.scale exponent = 2 * 2 ^ (Binary64.scale exponent - 1) := by
      rw [← Nat.pow_succ', Nat.succ_eq_add_one,
        Nat.sub_add_cancel (by rw [Binary64.scale]; omega)]
    omega
  · omega

/-- A grid finer than the interval reaches to either side of the value has a point in it. -/
theorem onGrid?_ne_none (tie : Tie) {interval : RoundingInterval} {grid : Int}
    (hstep : 0 < gridStep grid) (hfine : gridStep grid < 2 * gridDenominator grid)
    (hlow : interval.low + 2 ≤ interval.value) (hhigh : interval.value + 2 ≤ interval.high) :
    interval.onGrid? tie grid ≠ none := by
  have hpoint : (interval.scale (gridDenominator grid)).contains
      ((interval.scale (gridDenominator grid)).value / gridStep grid * gridStep grid) = true := by
    have hdiv := Nat.div_add_mod (interval.value * gridDenominator grid) (gridStep grid)
    have hmod := Nat.mod_lt (interval.value * gridDenominator grid) hstep
    rw [Nat.mul_comm (gridStep grid)] at hdiv
    have hlow' := Nat.mul_le_mul_right (gridDenominator grid) hlow
    have hhigh' := Nat.mul_le_mul_right (gridDenominator grid) hhigh
    rw [Nat.add_mul] at hlow' hhigh'
    apply contains_of_between <;> simp only [RoundingInterval.scale] <;> omega
  unfold onGrid?
  simp only [gridStep_def, gridDenominator_def, hpoint]
  split <;> simp_all

/-- The finest grid is finer than every interval is wide. -/
theorem onGrid?_finest (tie : Tie) (hne : units exponent fraction ≠ 0) :
    (RoundingInterval.of exponent fraction).onGrid? tie (-343) ≠ none :=
  onGrid?_ne_none tie (by decide +kernel) (by decide +kernel) (margin hne).1 (margin hne).2

end RoundingInterval

/-- The shortest decimal of a number other than zero lies in its rounding interval. -/
theorem shortest_roundsTo (tie : Tie) (hne : units exponent fraction ≠ 0) :
    (shortest tie exponent fraction).RoundsTo exponent fraction := by
  have hfound := RoundingInterval.coarsest?_ne_none 652 (RoundingInterval.onGrid?_finest tie hne)
  rw [shortest, if_neg hne]
  obtain ⟨d, hd⟩ := Option.ne_none_iff_exists'.mp hfound
  rw [hd, Option.getD_some]
  exact RoundingInterval.isClose_of_contains hne (gridDenominator_pos _)
    (RoundingInterval.coarsest?_spec hd)

/-- A number of so many digits lies between two powers of ten. -/
theorem digits_bounds {n : Nat} (hne : n ≠ 0) :
    10 ^ ((digits n).length - 1) ≤ n ∧ n < 10 ^ (digits n).length := by
  have hpos : 0 < (digits n).length := Nat.length_toDigits_pos
  constructor
  · rcases Nat.eq_or_lt_of_le hpos with hone | hmore
    · rw [← hone]
      exact Nat.pos_of_ne_zero hne
    · by_contra hlt
      have := (Nat.length_toDigits_le_iff (b := 10) (n := n) (by decide)
        (show 0 < (digits n).length - 1 by omega)).mpr (by omega)
      rw [digits] at hmore this
      omega
  · exact (Nat.length_toDigits_le_iff (by decide) hpos).mp (Nat.le_refl _)

/-- No rounding interval reaches up to `10 ^ 310`. -/
theorem high_lt (exponent : Fin 2047) (fraction : Fin (2 ^ 52)) :
    (4 * significand exponent fraction + 2) * 2 ^ scale exponent < gridStep 310 := by
  have hsig := significand_lt exponent fraction
  have hscale : scale exponent ≤ 2045 := by
    have := exponent.isLt
    rw [scale]
    omega
  calc
    (4 * significand exponent fraction + 2) * 2 ^ scale exponent ≤ 2 ^ 55 * 2 ^ 2045 :=
      Nat.mul_le_mul (by omega) (Nat.pow_le_pow_right (by decide) hscale)
    _ < gridStep 310 := by decide +kernel

namespace Decimal

section RoundsTo

variable {d : Decimal}

/-- A decimal in the interval of a number other than zero is not zero. -/
theorem RoundsTo.coefficient_ne_zero (hne : units exponent fraction ≠ 0)
    (h : d.RoundsTo exponent fraction) : d.coefficient ≠ 0 := by
  intro hzero
  have hsig := significand_pos hne
  have hplace : 0 < 2 ^ scale exponent * d.denominator :=
    Nat.mul_pos (Nat.two_pow_pos _) h.positive
  have hlow := h.low
  have hlower := (lowerQuarters_bounds exponent fraction).2
  rw [quarters, hzero, Nat.zero_mul, Nat.zero_add] at hlow
  have := Nat.le_of_mul_le_mul_right hlow hplace
  omega

/-- A decimal in the interval of a number other than zero is not too small. -/
theorem RoundsTo.not_small (hne : units exponent fraction ≠ 0)
    (h : d.RoundsTo exponent fraction) : -330 ≤ ((digits d.coefficient).length : Int) + d.exponent := by
  by_contra hsmall
  have hsig := significand_pos hne
  have hlow := h.low
  have hlower := (lowerQuarters_bounds exponent fraction).2
  have hplace : d.denominator ≤ 2 ^ scale exponent * d.denominator :=
    Nat.le_mul_of_pos_left _ (Nat.two_pow_pos _)
  have hquarters : d.denominator ≤ d.quarters := by
    have hmul := Nat.mul_le_mul_right (2 ^ scale exponent * d.denominator)
      (show lowerQuarters exponent fraction + 2 ≤ 4 * significand exponent fraction by omega)
    rw [Nat.add_mul] at hmul
    omega
  have hcoefficient := (digits_bounds (h.coefficient_ne_zero hne)).2
  have hpower : 10 ^ (digits d.coefficient).length * gridDenominator (-331) ≤ d.denominator :=
    pow_mul_gridDenominator_le (by decide) (by omega)
  have hunit : gridStep 0 ≤ gridDenominator (-331) := by decide +kernel
  rw [quarters, gridStep_of_nonpos (by omega)] at hquarters
  have := Nat.mul_lt_mul_of_lt_of_le hcoefficient hunit (gridDenominator_pos _)
  omega

/-- A decimal in the interval of a number is not too large. -/
theorem RoundsTo.not_large (hne : units exponent fraction ≠ 0)
    (h : d.RoundsTo exponent fraction) : ((digits d.coefficient).length : Int) + d.exponent ≤ 310 := by
  by_contra hlarge
  have hcoefficient := (digits_bounds (h.coefficient_ne_zero hne)).1
  have hpos := h.positive
  have hquarters : gridStep 310 * d.denominator ≤ d.quarters := by
    rcases Int.le_total 0 d.exponent with hwhole | hpart
    · have hone : d.denominator = 1 := by
        rw [denominator, gridDenominator, show (-d.exponent).toNat = 0 by omega, Nat.pow_zero]
      calc
        gridStep 310 * d.denominator = gridStep 310 := by rw [hone, Nat.mul_one]
        _ ≤ gridStep (d.exponent + ((digits d.coefficient).length - 1 : Nat)) :=
          gridStep_mono (by omega)
        _ = 10 ^ ((digits d.coefficient).length - 1) * gridStep d.exponent := by
          rw [← gridStep_mul_pow hwhole, Nat.mul_comm]
        _ ≤ d.quarters := Nat.mul_le_mul_right _ hcoefficient
    · calc
        gridStep 310 * d.denominator = 10 ^ 310 * d.denominator * gridStep 0 := by
          rw [show (310 : Int) = 0 + (310 : Nat) by rfl, ← gridStep_mul_pow (Int.le_refl 0),
            Nat.mul_comm (gridStep 0), Nat.mul_right_comm]
        _ ≤ 10 ^ ((digits d.coefficient).length - 1) * gridStep 0 := by
          apply Nat.mul_le_mul_right
          rw [denominator, gridDenominator, ← Nat.pow_add]
          exact Nat.pow_le_pow_right (by decide) (by omega)
        _ ≤ d.quarters := by
          rw [quarters, gridStep_of_nonpos hpart]
          exact Nat.mul_le_mul_right _ hcoefficient
  have hhigh := h.high
  rw [← Nat.mul_assoc] at hhigh
  have := Nat.mul_lt_mul_of_pos_right (high_lt exponent fraction) hpos
  omega

/-- A decimal in the interval of a number other than zero rounds to it. -/
theorem RoundsTo.toBinary64 (negative : Bool) (hne : units exponent fraction ≠ 0)
    (h : d.RoundsTo exponent fraction) : d.toBinary64 negative = finite negative exponent fraction := by
  have hnonzero := h.coefficient_ne_zero hne
  have hsmall := h.not_small hne
  have hlarge := h.not_large hne
  rw [Decimal.toBinary64]
  simp only [Bool.or_eq_true, decide_eq_true_eq]
  rw [if_neg (by omega), if_neg (by omega)]
  obtain ⟨unit, hunit, hstep⟩ := gridStep_eq_units d.exponent
  rw [RoundsTo, quarters, denominator, hstep, Nat.mul_left_comm, ← Nat.mul_assoc d.coefficient] at h
  split
  · rename_i hwhole
    rw [gridDenominator, show (-d.exponent).toNat = 0 by omega, Nat.pow_zero] at h
    exact nearest_of_isClose negative (by rw [hunit]) h
  · rename_i hpart
    rw [gridDenominator, show d.exponent.toNat = 0 by omega, Nat.pow_zero, Nat.mul_one] at h
    exact nearest_of_isClose negative (by rw [hunit]) h

end RoundsTo

end Decimal

end PlcTypes.Number
