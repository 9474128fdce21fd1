import Mathlib.Algebra.Order.Ring.Nat
import Mathlib.Tactic.Linarith
import Mathlib.Tactic.Ring
import PlcTypes.Number.Shortest

/-!
# What rounds to a number

A fraction rounds to a finite number if it lies in the number's rounding interval. The interval
is measured in quarters of a unit, and everything is cross-multiplied, so that only natural
numbers are compared. Below a power of two the neighbour is only half as far away; a fraction
there is rounded on the finer scale first and then carried over.
-/

namespace PlcTypes.Number.Binary64

/-- A quotient rounds to the whole number that is no more than a half away, provided that the
number is even where the distance is a half. -/
theorem roundDiv_eq {n d m : Nat} (hd : 0 < d) (hlow : 2 * (m * d) ≤ 2 * n + d)
    (hhigh : 2 * n ≤ 2 * (m * d) + d)
    (htie : 2 * (m * d) = 2 * n + d ∨ 2 * n = 2 * (m * d) + d → m % 2 = 0) :
    roundDiv n d = m := by
  have hdiv : n = n / d * d + n % d := by
    rw [Nat.mul_comm]
    exact (Nat.div_add_mod n d).symm
  have hmod : n % d < d := Nat.mod_lt n hd
  rw [roundDiv]
  generalize n / d = q at hdiv ⊢
  generalize n % d = r at hdiv hmod ⊢
  have hq : m = q ∨ m = q + 1 := by
    by_contra hne
    rcases Nat.lt_or_ge m q with hlt | hge
    · have := Nat.mul_le_mul_right d (show m + 1 ≤ q from hlt)
      rw [Nat.add_mul] at this
      omega
    · have := Nat.mul_le_mul_right d (show q + 2 ≤ m by omega)
      rw [Nat.add_mul] at this
      omega
  simp only [Bool.or_eq_true, decide_eq_true_eq, Bool.and_eq_true, beq_iff_eq]
  rcases hq with rfl | rfl
  · rw [if_neg]
    intro hround
    rcases hround with hgt | ⟨heq, hodd⟩
    · omega
    · have := htie (Or.inr (by omega))
      omega
  · rw [Nat.add_mul] at hlow hhigh htie
    rw [if_pos]
    rcases Nat.lt_or_ge d (2 * r) with hgt | hle
    · exact Or.inl hgt
    · have := htie (Or.inl (by omega))
      exact Or.inr ⟨by omega, by omega⟩

/-- The digits before the scaling are below `2 ^ 53`. -/
theorem significand_lt (exponent : Fin 2047) (fraction : Fin (2 ^ 52)) :
    significand exponent fraction < 2 ^ 53 := by
  have := fraction.isLt
  rw [significand]
  split <;> omega

/-- A number with all its digits given is rebuilt from them. -/
theorem ofParts_significand (negative : Bool) (exponent : Fin 2047) (fraction : Fin (2 ^ 52)) :
    ofParts negative (significand exponent fraction) (scale exponent) =
      finite negative exponent fraction := by
  have hfraction := fraction.isLt
  have hexponent := exponent.isLt
  by_cases h : exponent.val = 0
  · have hsig : significand exponent fraction = fraction.val := if_pos h
    rw [ofParts, dif_pos (by omega)]
    simp only [hsig, finite.injEq, Fin.ext_iff, true_and, and_true]
    exact h.symm
  · have hsig : significand exponent fraction = 2 ^ 52 + fraction.val := if_neg h
    rw [ofParts, dif_neg (by omega), dif_pos (by rw [scale]; omega)]
    simp only [hsig, finite.injEq, Fin.ext_iff, true_and, scale]
    omega

/-- The distance from a number to the lower end of its rounding interval, in quarters of the last
place: a half of it, but only a quarter above smaller neighbours. -/
def lowerQuarters (exponent : Fin 2047) (fraction : Fin (2 ^ 52)) : Nat :=
  if fraction.val = 0 ∧ 1 < exponent.val then 1 else 2

/-- The lower end is a quarter or a half of the last place away. -/
theorem lowerQuarters_bounds (exponent : Fin 2047) (fraction : Fin (2 ^ 52)) :
    1 ≤ lowerQuarters exponent fraction ∧ lowerQuarters exponent fraction ≤ 2 := by
  rw [lowerQuarters]
  split <;> omega

/-- The fraction `n / d`, measured in quarters of a unit, lies in the rounding interval of a
number, whose ends belong to it only if the significand is even. -/
structure IsClose (exponent : Fin 2047) (fraction : Fin (2 ^ 52)) (n d : Nat) : Prop where
  positive : 0 < d
  high : n ≤ (4 * significand exponent fraction + 2) * (2 ^ scale exponent * d)
  low : 4 * significand exponent fraction * (2 ^ scale exponent * d) ≤
    n + lowerQuarters exponent fraction * (2 ^ scale exponent * d)
  tie : n = (4 * significand exponent fraction + 2) * (2 ^ scale exponent * d) ∨
    4 * significand exponent fraction * (2 ^ scale exponent * d) =
      n + lowerQuarters exponent fraction * (2 ^ scale exponent * d) → fraction.val % 2 = 0

/-- The binary logarithm of a number between two successive powers of two. -/
theorem log2_eq {q k : Nat} (hlow : 2 ^ k ≤ q) (hhigh : q < 2 ^ (k + 1)) : q.log2 = k := by
  have hne : q ≠ 0 := by
    have := Nat.two_pow_pos k
    omega
  have hlt := (Nat.log2_lt hne).mpr hhigh
  have hle := (Nat.le_log2 hne).mpr hlow
  omega

section Nearest

variable {exponent : Fin 2047} {fraction : Fin (2 ^ 52)} {numerator denominator : Nat}

/-- On the scale of the number itself a close fraction rounds to its digits. -/
theorem roundDiv_of_isClose (h : IsClose exponent fraction (4 * numerator) denominator) :
    roundDiv numerator (denominator * 2 ^ scale exponent) = significand exponent fraction := by
  obtain ⟨hpos, hhigh, hlow, htie⟩ := h
  have hplace : 0 < 2 ^ scale exponent * denominator := Nat.mul_pos (Nat.two_pow_pos _) hpos
  rw [Nat.mul_comm denominator]
  generalize 2 ^ scale exponent * denominator = place at *
  have hquarters : lowerQuarters exponent fraction * place ≤ 2 * place :=
    Nat.mul_le_mul_right place (lowerQuarters_bounds exponent fraction).2
  have heven : fraction.val % 2 = 0 → significand exponent fraction % 2 = 0 := by
    rw [significand]
    split <;> omega
  rw [Nat.add_mul, Nat.mul_assoc] at hhigh htie
  rw [Nat.mul_assoc] at hlow
  apply roundDiv_eq hplace
  · omega
  · omega
  · intro heq
    rcases heq with heq | heq
    · exact heven (htie (Or.inr (by omega)))
    · exact heven (htie (Or.inl (by omega)))

/-- Below a power of two a close fraction rounds to the carry on the finer scale. -/
theorem roundDiv_of_isClose_below (h : IsClose exponent fraction (4 * numerator) denominator)
    (hzero : fraction.val = 0) (hexponent : 1 < exponent.val)
    (hbelow : numerator < 2 ^ 53 * (2 ^ (scale exponent - 1) * denominator)) :
    roundDiv numerator (denominator * 2 ^ (scale exponent - 1)) = 2 ^ 53 := by
  obtain ⟨hpos, -, hlow, -⟩ := h
  have hplace : 0 < 2 ^ (scale exponent - 1) * denominator :=
    Nat.mul_pos (Nat.two_pow_pos _) hpos
  have hscale : 2 ^ scale exponent = 2 * 2 ^ (scale exponent - 1) := by
    rw [← Nat.pow_succ', Nat.succ_eq_add_one, Nat.sub_add_cancel (by rw [scale]; omega)]
  have hsig : significand exponent fraction = 2 ^ 52 := by
    rw [significand, if_neg (by omega), hzero, Nat.add_zero]
  rw [hsig, hscale, lowerQuarters, if_pos ⟨hzero, hexponent⟩, Nat.mul_assoc 2] at hlow
  rw [Nat.mul_comm denominator]
  generalize 2 ^ (scale exponent - 1) * denominator = place at *
  apply roundDiv_eq hplace <;> omega

/-- A close fraction rounds to the number. -/
theorem nearest_of_isClose (negative : Bool) {scaled : Nat} (hscaled : numerator * 2 ^ 1074 = scaled)
    (h : IsClose exponent fraction (4 * scaled) denominator) :
    nearest negative numerator denominator = finite negative exponent fraction := by
  unfold nearest
  simp only [hscaled]
  have hpos := h.positive
  have hplace : 0 < 2 ^ scale exponent * denominator := Nat.mul_pos (Nat.two_pow_pos _) hpos
  have hsig := significand_lt exponent fraction
  -- the fraction lies below the next power of two
  have hupper : scaled / denominator < 2 ^ (52 + scale exponent + 1) := by
    rw [Nat.div_lt_iff_lt_mul hpos, show 52 + scale exponent + 1 = 53 + scale exponent by omega,
      Nat.pow_add, Nat.mul_assoc]
    have hhigh := h.high
    have hmul := Nat.mul_le_mul_right (2 ^ scale exponent * denominator)
      (show 4 * significand exponent fraction + 2 ≤ 4 * 2 ^ 53 - 2 by omega)
    omega
  by_cases hlower : 2 ^ (52 + scale exponent) ≤ scaled / denominator ∨ scale exponent = 0
  · -- the scale is that of the number
    have hscale : Nat.log2 (scaled / denominator) - 52 = scale exponent := by
      rcases hlower with hlower | hzero
      · rw [log2_eq hlower hupper]
        omega
      · by_cases hne : scaled / denominator = 0
        · simp [hne, hzero]
        · have := (Nat.log2_lt hne).mpr hupper
          omega
    simp only [hscale, roundDiv_of_isClose h]
    rw [if_neg (by omega), ofParts_significand]
  · -- the fraction lies just below a power of two
    rw [not_or, Nat.not_le, Nat.div_lt_iff_lt_mul hpos, Nat.pow_add, Nat.mul_assoc] at hlower
    obtain ⟨hbelow, hscale⟩ := hlower
    have hexponent : 1 < exponent.val := by
      rw [scale] at hscale
      omega
    have hnormal : significand exponent fraction = 2 ^ 52 + fraction.val := if_neg (by omega)
    have hlow := h.low
    have hzero : fraction.val = 0 := by
      by_contra hne
      have hmul := Nat.mul_le_mul_right (2 ^ scale exponent * denominator)
        (show 4 * (2 ^ 52 + 1) ≤ 4 * significand exponent fraction by omega)
      rw [lowerQuarters, if_neg (by omega)] at hlow
      omega
    have hscale' : 2 ^ scale exponent = 2 * 2 ^ (scale exponent - 1) := by
      rw [← Nat.pow_succ', Nat.succ_eq_add_one, Nat.sub_add_cancel (by omega)]
    have hfiner : 2 ^ (52 + (scale exponent - 1)) ≤ scaled / denominator := by
      rw [Nat.le_div_iff_mul_le hpos, Nat.pow_add, Nat.mul_assoc]
      rw [hnormal, hzero, lowerQuarters, if_pos ⟨hzero, hexponent⟩, hscale', Nat.mul_assoc 2] at hlow
      omega
    have hcoarser : scaled / denominator < 2 ^ (52 + (scale exponent - 1) + 1) := by
      rw [Nat.div_lt_iff_lt_mul hpos, Nat.pow_succ, Nat.pow_add]
      rw [hscale'] at hbelow
      linarith
    have hlog : Nat.log2 (scaled / denominator) - 52 = scale exponent - 1 := by
      rw [log2_eq hfiner hcoarser]
      omega
    have hround := roundDiv_of_isClose_below h hzero hexponent (by
      rw [hscale'] at hbelow
      linarith)
    simp only [hlog, hround, if_true]
    rw [Nat.sub_add_cancel (by omega), ← ofParts_significand negative exponent fraction, hnormal,
      hzero, Nat.add_zero]

end Nearest

/-- A number on a scale below the largest is finite. -/
theorem isFinite_ofParts (negative : Bool) (significand : Nat) {scale : Nat} (h : scale + 1 < 2047) :
    (ofParts negative significand scale).isFinite = true := by
  rw [ofParts]
  split
  · rfl
  · rfl

/-- A fraction with a numerator of 64 bits rounds to a finite number. -/
theorem isFinite_nearest (negative : Bool) {numerator : Nat} (denominator : Nat)
    (h : numerator < 2 ^ 64) : (nearest negative numerator denominator).isFinite = true := by
  have hlog {n : Nat} (hn : n < 2 ^ (64 + 1074)) : n.log2 - 52 + 2 < 2047 := by
    by_cases hzero : n = 0
    · simp [hzero]
    · have := (Nat.log2_lt hzero).mpr hn
      omega
  have hplaces (places : Nat) : numerator * 2 ^ places < 2 ^ (64 + places) := by
    rw [Nat.pow_add]
    exact Nat.mul_lt_mul_of_pos_right h (Nat.two_pow_pos _)
  obtain ⟨scaled, hscaled⟩ : ∃ scaled, numerator * 2 ^ 1074 = scaled := ⟨_, rfl⟩
  have hsmall := hplaces 1074
  rw [hscaled] at hsmall
  have hscale := hlog (Nat.lt_of_le_of_lt (Nat.div_le_self scaled denominator) hsmall)
  unfold nearest
  simp only [hscaled]
  split
  · exact isFinite_ofParts _ _ hscale
  · exact isFinite_ofParts _ _ (by omega)

/-- A 64-bit integer is nearest to a finite number. -/
theorem isFinite_ofInt (value : Int64) : (ofInt value.toInt).isFinite = true := by
  have hlow := Int64.le_toInt value
  have hhigh := Int64.toInt_lt value
  exact isFinite_nearest _ _ (by omega)

end PlcTypes.Number.Binary64
