import PlcTypes.Number.Real
import PlcTypes.Proofs.Number.Shortest
import PlcTypes.Proofs.Text.Ascii

/-!
# Plain reals read back

The plain spelling of a finite real is a decimal in its rounding interval, written with digits on
both sides of a point. Reading it gives the same decimal, up to a zero behind the point, and
so the same real.
-/

namespace PlcTypes.Number

open Binary64 Text

variable {exponent : Fin 2047} {fraction : Fin (2 ^ 52)}

/-- A fraction may be expanded. -/
theorem Binary64.IsClose.expand {n d k : Nat} (hk : 0 < k) (h : IsClose exponent fraction n d) :
    IsClose exponent fraction (k * n) (k * d) := by
  obtain ⟨hpos, hhigh, hlow, htie⟩ := h
  refine ⟨Nat.mul_pos hk hpos, ?_, ?_, ?_⟩ <;>
    rw [Nat.mul_left_comm (2 ^ scale exponent), Nat.mul_left_comm _ k]
  · exact Nat.mul_le_mul_left k hhigh
  · rw [Nat.mul_left_comm _ k, ← Nat.mul_add]
    exact Nat.mul_le_mul_left k hlow
  · rw [Nat.mul_left_comm _ k, Nat.mul_left_comm _ k, ← Nat.mul_add]
    intro heq
    rcases heq with heq | heq
    · exact htie (Or.inl (Nat.eq_of_mul_eq_mul_left hk heq))
    · exact htie (Or.inr (Nat.eq_of_mul_eq_mul_left hk heq))

/-- The exact value of a number is in its rounding interval. -/
theorem Binary64.isClose_exact : IsClose exponent fraction (4 * units exponent fraction) 1 := by
  have hplace := Nat.two_pow_pos (scale exponent)
  have hroom := Nat.mul_le_mul_right (2 ^ scale exponent) (lowerQuarters_bounds exponent fraction).1
  refine ⟨Nat.one_pos, ?_, ?_, ?_⟩ <;>
    rw [units, Nat.mul_one] <;> simp only [Nat.add_mul, Nat.mul_assoc] <;> omega

namespace Decimal

/-- A text of digits with a point among them reads as the digits divided by a power of ten. -/
theorem read_point {whole fraction : List Char} (hne : whole ≠ [])
    (hwhole : ∀ c ∈ whole, c.isDigit = true) (hfraction : ∀ c ∈ fraction, c.isDigit = true) :
    read (whole ++ '.' :: fraction) =
      some ⟨Nat.ofDigitChars 10 (whole ++ fraction) 0, -(fraction.length : Int)⟩ := by
  have hspan : spanDigits fraction = (fraction, []) := by
    rw [spanDigits, List.takeWhile_eq_self_iff.mpr hfraction, List.dropWhile_eq_nil_iff.mpr hfraction]
  have hdigits : ∀ c ∈ whole ++ fraction, c.isDigit = true := by
    intro c hc
    rcases List.mem_append.mp hc with hc | hc
    · exact hwhole c hc
    · exact hfraction c hc
  rw [read, spanDigits, takeWhile_append_cons fraction hwhole (by decide),
    dropWhile_append_cons fraction hwhole (by decide)]
  simp only [hspan, readDigits_of_isDigit (by simp [hne]) hdigits, Option.bind_some, readExponent,
    Option.map_some, Int.zero_sub]

/-- The digits of a decimal behind zeros. -/
theorem ofDigitChars_zeros (count n : Nat) :
    Nat.ofDigitChars 10 (List.replicate count '0' ++ digits n) 0 = n := by
  rw [Nat.ofDigitChars_append, Nat.ofDigitChars_replicate_zero, Nat.mul_zero, digits,
    Nat.ofDigitChars_ten_toDigits]

/-- Zeros and digits are digits. -/
theorem isDigit_of_mem_padded {count n : Nat} {c : Char}
    (h : c ∈ List.replicate count '0' ++ digits n) : c.isDigit = true := by
  rcases List.mem_append.mp h with h | h
  · rw [List.eq_of_mem_replicate h]
    decide
  · exact isDigit_of_mem_toDigits h

/-- Zeros behind the digits of a decimal multiply it by a power of ten. -/
theorem ofDigitChars_append_zeros (n count : Nat) :
    Nat.ofDigitChars 10 (digits n ++ List.replicate count '0') 0 = n * 10 ^ count := by
  rw [Nat.ofDigitChars_append, Nat.ofDigitChars_replicate_zero, digits, Nat.ofDigitChars_ten_toDigits,
    Nat.mul_comm]

/-- A decimal without a fractional part may be given one more place. -/
theorem RoundsTo.onePlace {d : Decimal} (hwhole : 0 ≤ d.exponent)
    (h : d.RoundsTo exponent fraction) :
    RoundsTo exponent fraction ⟨d.coefficient * 10 ^ (d.exponent.toNat + 1), -1⟩ := by
  have hstep : gridStep d.exponent = gridStep 0 * 10 ^ d.exponent.toNat := by
    rw [gridStep_mul_pow (Int.le_refl 0), Int.zero_add, Int.toNat_of_nonneg hwhole]
  have hone : d.denominator = 1 := by
    rw [denominator, gridDenominator, show (-d.exponent).toNat = 0 by omega, Nat.pow_zero]
  have hten : gridDenominator (-1) = 10 := by
    rw [gridDenominator]
    rfl
  have hquarters : d.coefficient * 10 ^ (d.exponent.toNat + 1) * gridStep (-1) = 10 * d.quarters := by
    rw [gridStep_of_nonpos (by decide), quarters, hstep, Nat.pow_succ]
    ring
  have hclose := Binary64.IsClose.expand (k := 10) (by decide) h
  rw [hone] at hclose
  rw [RoundsTo, quarters, denominator]
  simp only [hquarters, hten]
  exact hclose

/-- A positional spelling has digits on both sides of a point. -/
theorem positional_eq (d : Decimal) :
    ∃ whole places, d.positional = whole ++ '.' :: places ∧ whole ≠ [] ∧
      (∀ c ∈ whole, c.isDigit = true) ∧ (∀ c ∈ places, c.isDigit = true) ∧
      ∀ {exponent fraction}, d.RoundsTo exponent fraction →
        RoundsTo exponent fraction
          ⟨Nat.ofDigitChars 10 (whole ++ places) 0, -(places.length : Int)⟩ := by
  rw [positional]
  by_cases hwhole : 0 ≤ d.exponent
  · rw [if_pos hwhole]
    refine ⟨digits d.coefficient ++ List.replicate d.exponent.toNat '0', ['0'], rfl, ?_, ?_, ?_, ?_⟩
    · simp [digits, Nat.toDigits_ne_nil]
    · intro c hc
      rcases List.mem_append.mp hc with hc | hc
      · exact isDigit_of_mem_toDigits hc
      · rw [List.eq_of_mem_replicate hc]
        decide
    · simp
    · intro exponent fraction h
      rw [List.append_assoc, ← List.replicate_succ', ofDigitChars_append_zeros]
      exact h.onePlace hwhole
  · rw [if_neg hwhole]
    dsimp only
    generalize hplaces : (-d.exponent).toNat = places
    generalize hpadded :
      List.replicate (places + 1 - (digits d.coefficient).length) '0' ++ digits d.coefficient = padded
    have hlength : places + 1 ≤ padded.length := by
      rw [← hpadded, List.length_append, List.length_replicate]
      omega
    have hdigit : ∀ c ∈ padded, c.isDigit = true := fun c hc =>
      isDigit_of_mem_padded (hpadded ▸ hc)
    refine ⟨padded.take (padded.length - places), padded.drop (padded.length - places), rfl,
      ?_, fun c hc => hdigit c (List.mem_of_mem_take hc),
      fun c hc => hdigit c (List.mem_of_mem_drop hc), ?_⟩
    · rw [← List.length_pos_iff, List.length_take]
      omega
    · intro exponent fraction h
      have hexponent : -((padded.drop (padded.length - places)).length : Int) = d.exponent := by
        rw [List.length_drop]
        omega
      rw [List.take_append_drop, hexponent, ← hpadded, ofDigitChars_zeros]
      exact h

end Decimal

/-- A text of digits with a point among them is read as a real by its decimal. -/
theorem readReal_signed (negative : Bool) {whole places : List Char} (hne : whole ≠ [])
    (hwhole : ∀ c ∈ whole, c.isDigit = true) (hplaces : ∀ c ∈ places, c.isDigit = true) :
    readReal (signed negative (whole ++ '.' :: places)) =
      some (Decimal.toBinary64 negative
        ⟨Nat.ofDigitChars 10 (whole ++ places) 0, -(places.length : Int)⟩) := by
  obtain ⟨c, rest, rfl⟩ := List.exists_cons_of_ne_nil hne
  have hc : c.isDigit = true := hwhole c List.mem_cons_self
  have hpoint : '.' ∈ c :: rest ++ '.' :: places := by simp
  have hmagnitude :
      (if sameIgnoringCase (c :: rest ++ '.' :: places) "nan".toList then some Binary64.nan
      else if sameIgnoringCase (c :: rest ++ '.' :: places) "inf".toList ||
          sameIgnoringCase (c :: rest ++ '.' :: places) "infinity".toList then
        some (.infinite negative)
      else (Decimal.read (c :: rest ++ '.' :: places)).map (Decimal.toBinary64 negative)) =
      some (Decimal.toBinary64 negative
        ⟨Nat.ofDigitChars 10 (c :: rest ++ places) 0, -(places.length : Int)⟩) := by
    rw [sameIgnoringCase_eq_false_of_mem hpoint (by decide) (by decide),
      sameIgnoringCase_eq_false_of_mem hpoint (by decide) (by decide),
      sameIgnoringCase_eq_false_of_mem hpoint (by decide) (by decide),
      Decimal.read_point hne hwhole hplaces]
    rfl
  cases negative with
  | true => exact hmagnitude
  | false =>
    rw [signed, if_neg (by decide)]
    rw [List.cons_append] at hmagnitude ⊢
    rw [readReal]
    · exact hmagnitude
    · intro rest' heq
      exact absurd ((List.cons.inj heq).1 ▸ hc) (by decide)
    · intro rest' heq
      exact absurd ((List.cons.inj heq).1 ▸ hc) (by decide)

/-- A whole number in its own units is in its rounding interval. -/
theorem roundsTo_wholePart {whole : Nat} (h : wholePart? exponent fraction = some whole) :
    Decimal.RoundsTo exponent fraction ⟨whole, 0⟩ := by
  obtain ⟨unit, hunit, hstep⟩ := gridStep_eq_units 0
  have hunits : units exponent fraction = whole * unit := by
    simp only [wholePart?, hunit] at h
    split at h
    · rename_i hmod
      rw [Option.some.injEq] at h
      rw [← h, Nat.div_mul_cancel (Nat.dvd_of_mod_eq_zero hmod)]
    · simp at h
  have hone : gridDenominator 0 = 1 := by
    rw [gridDenominator]
    rfl
  have hquarters : whole * gridStep 0 = 4 * units exponent fraction := by
    rw [hstep, hunits, Int.toNat_zero, Nat.pow_zero, Nat.one_mul, Nat.mul_left_comm]
  rw [Decimal.RoundsTo, Decimal.quarters, Decimal.denominator]
  simp only [hquarters, hone]
  exact Binary64.isClose_exact

/-- Only the two zeros have no units. -/
theorem eq_zero_of_units (h : units exponent fraction = 0) : exponent = 0 ∧ fraction = 0 := by
  have hsig : significand exponent fraction = 0 :=
    (Nat.mul_eq_zero.mp h).resolve_right (Nat.two_pow_pos _).ne'
  rw [significand] at hsig
  split at hsig
  · rename_i hexponent
    exact ⟨Fin.ext hexponent, Fin.ext hsig⟩
  · omega

/-- The plain spelling of a finite real has digits on both sides of a point, which read back as
the real. -/
theorem plainReal_finite (negative : Bool) (exponent : Fin 2047) (fraction : Fin (2 ^ 52)) :
    ∃ whole places, plainReal (.finite negative exponent fraction) =
        signed negative (whole ++ '.' :: places) ∧ whole ≠ [] ∧
      (∀ c ∈ whole, c.isDigit = true) ∧ (∀ c ∈ places, c.isDigit = true) ∧
      Decimal.toBinary64 negative
        ⟨Nat.ofDigitChars 10 (whole ++ places) 0, -(places.length : Int)⟩ =
          .finite negative exponent fraction := by
  by_cases hzero : units exponent fraction = 0
  · obtain ⟨rfl, rfl⟩ := eq_zero_of_units hzero
    refine ⟨['0'], ['0'], ?_, by decide, by decide, by decide, ?_⟩
    · have hwhole : wholePart? 0 0 = some 0 := by decide +kernel
      rw [plainReal, hwhole]
      rfl
    · cases negative <;> decide +kernel
  · have hpositional : ∃ d : Decimal, plainReal (.finite negative exponent fraction) =
        signed negative d.positional ∧ d.RoundsTo exponent fraction := by
      rw [plainReal]
      cases hwhole : wholePart? exponent fraction with
      | some whole =>
        exact ⟨⟨whole, 0⟩, by simp [Decimal.positional], roundsTo_wholePart hwhole⟩
      | none => exact ⟨shortest .up exponent fraction, rfl, shortest_roundsTo .up hzero⟩
    obtain ⟨d, htext, hd⟩ := hpositional
    obtain ⟨whole, places, hsplit, hne, hwhole, hplaces, hround⟩ := d.positional_eq
    exact ⟨whole, places, by rw [htext, hsplit], hne, hwhole, hplaces,
      (hround hd).toBinary64 negative hzero⟩

/-- The plain spelling of a finite real holds a point, digits and perhaps a minus sign. -/
theorem of_mem_plainReal {value : Binary64} (h : value.isFinite = true) :
    '.' ∈ plainReal value ∧
      ∀ c ∈ plainReal value, c.isDigit = true ∨ c = '.' ∨ c = '-' := by
  cases value with
  | finite negative exponent fraction =>
    obtain ⟨whole, places, htext, -, hwhole, hplaces, -⟩ :=
      plainReal_finite negative exponent fraction
    have hmagnitude : ∀ c ∈ whole ++ '.' :: places, c.isDigit = true ∨ c = '.' ∨ c = '-' := by
      intro c hc
      rcases List.mem_append.mp hc with hc | hc
      · exact Or.inl (hwhole c hc)
      · rcases List.mem_cons.mp hc with rfl | hc
        · exact Or.inr (Or.inl rfl)
        · exact Or.inl (hplaces c hc)
    rw [htext, signed]
    split
    · refine ⟨by simp, fun c hc => ?_⟩
      rcases List.mem_cons.mp hc with rfl | hc
      · exact Or.inr (Or.inr rfl)
      · exact hmagnitude c hc
    · exact ⟨by simp, hmagnitude⟩
  | infinite negative => simp [Binary64.isFinite] at h
  | nan => simp [Binary64.isFinite] at h

/-- A finite real reads back from its plain spelling. -/
theorem readFiniteReal_plainReal {value : Binary64} (h : value.isFinite = true) :
    readFiniteReal (plainReal value) = some value := by
  cases value with
  | finite negative exponent fraction =>
    obtain ⟨whole, places, htext, hne, hwhole, hplaces, hvalue⟩ :=
      plainReal_finite negative exponent fraction
    rw [htext, readFiniteReal, readReal_signed negative hne hwhole hplaces, hvalue,
      Option.filter_some, if_pos h]
  | infinite negative => simp [Binary64.isFinite] at h
  | nan => simp [Binary64.isFinite] at h

end PlcTypes.Number
