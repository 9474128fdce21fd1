import Mathlib.Algebra.Group.Nat.Defs
import PlcTypes.Proofs.TypeSpelling

/-!
# Sizes of arrays

An array is made of a number of elements if a signed 64-bit integer can tell the number, and is counted
if an unsigned one can. The count is what 64-bit words give as well: the distance of the bounds is always
a word, and only one more than it may be none, which happens to the array over all 64-bit integers alone.
-/

namespace PlcTypes

open Number

namespace Number

/-- The distance of two 64-bit integers as a word: the bits of the lesser one are taken from those of the
greater one. -/
def distance (a b : Int64) : UInt64 :=
  if a < b then b.toUInt64 - a.toUInt64 else a.toUInt64 - b.toUInt64

/-- One more than a word, unless it wraps. -/
def successor? (word : UInt64) : Option UInt64 := if word + 1 < word then none else some (word + 1)

/-- The bits of a 64-bit integer stand for the integer or for `2 ^ 64` more. -/
theorem toNat_toUInt64 (a : Int64) :
    (a.toUInt64.toNat : Int) = if 0 ≤ a.toInt then a.toInt else a.toInt + 2 ^ 64 := by
  have hbits : a.toInt = a.toBitVec.toInt := rfl
  have hnat : a.toUInt64.toNat = a.toBitVec.toNat := rfl
  have hsmall := a.toBitVec.isLt
  rw [hbits, hnat, BitVec.toInt_eq_toNat_cond]
  split_ifs <;> omega

/-- Taking the bits of a 64-bit integer from those of a greater one does not wrap. -/
theorem toNat_toUInt64_sub {a b : Int64} (h : a ≤ b) :
    ((b.toUInt64 - a.toUInt64).toNat : Int) = b.toInt - a.toInt := by
  have ha := toNat_toUInt64 a
  have hb := toNat_toUInt64 b
  have hle := Int64.le_iff_toInt_le.mp h
  have hlower := a.le_toInt
  have hupper := b.toInt_lt
  rw [UInt64.toNat_sub]
  split_ifs at ha hb <;> omega

/-- The distance of two 64-bit integers is always a word. -/
theorem toNat_distance (a b : Int64) : (distance a b).toNat = (b.toInt - a.toInt).natAbs := by
  rw [distance]
  split
  · rename_i hlt
    have hword := toNat_toUInt64_sub (Int64.le_of_lt hlt)
    omega
  · rename_i hle
    have hword := toNat_toUInt64_sub (Int64.not_lt.mp hle)
    omega

/-- One more than a word is a word unless it reaches `2 ^ 64`. -/
theorem map_toNat_successor? (word : UInt64) :
    (successor? word).map UInt64.toNat = (some (word.toNat + 1)).filter (· < 2 ^ 64) := by
  have hsmall := word.toNat_lt
  have hnext : (word + 1).toNat = (word.toNat + 1) % 2 ^ 64 := by rw [UInt64.toNat_add]; rfl
  have hwraps : word + 1 < word ↔ ¬word.toNat + 1 < 2 ^ 64 := by
    rw [UInt64.lt_iff_toNat_lt, hnext]
    omega
  rw [successor?, Option.filter_some]
  by_cases hfits : word.toNat + 1 < 2 ^ 64
  · rw [if_neg (hwraps.not.mpr (not_not.mpr hfits)), if_pos (decide_eq_true hfits), Option.map_some, hnext,
      Nat.mod_eq_of_lt hfits]
  · rw [if_pos (hwraps.mpr hfits), if_neg (by simpa using hfits), Option.map_none]

end Number

namespace DataType

/-- An array has elements, and their number fits 64 bits if it is known. -/
theorem elementCount?_bounds {type : DataType} {count : Nat} (h : type.elementCount? = some count) :
    0 < count ∧ count < 2 ^ 64 := by
  cases type with
  | array base lower upper =>
    rw [elementCount?, Option.filter_some] at h
    split at h
    · rename_i hfits
      rw [← Option.some.inj h]
      exact ⟨Nat.succ_pos _, of_decide_eq_true hfits⟩
    · simp at h
  | scalar kind => simp [elementCount?] at h
  | named name => simp [elementCount?] at h

/-- An array is sized by its number of elements as a 64-bit integer. -/
theorem sized_eq_elim (base : DataType) (count : Nat) : base.sized count =
    (toInt64? count).elim (.error (.unreadable (toString count))) fun size =>
      base.arrayOf 0 (size - 1) := by
  -- the definition is opened as a function, so that nothing evaluates its range check in unary
  have hopened : ∃ f, f = sized ∧ ∀ base count, f base count =
      (toInt64? count).elim (.error (.unreadable (toString count))) fun size =>
        base.arrayOf 0 (size - 1) := by
    refine ⟨?f, ?body, fun base count => ?_⟩
    case body =>
      delta sized
      exact rfl
    cases toInt64? count <;> rfl
  obtain ⟨f, rfl, hf⟩ := hopened
  exact hf base count

/-- An array of a positive number of elements is numbered from zero. -/
theorem sized_of_pos {base : DataType} {count : Nat} (hpos : 0 < count) (hcount : count < 2 ^ 63) :
    base.sized count = .ok (.array base 0 (Int64.ofNat (count - 1))) := by
  have hsize : toInt64? count = some (Int64.ofInt count) :=
    if_pos ⟨by omega, by omega⟩
  have hupper : Int64.ofInt count - 1 = Int64.ofNat (count - 1) := by
    have hcast : ((count - 1 : Nat) : Int) = (count : Int) - 1 := by omega
    rw [← Int64.ofInt_eq_ofNat, hcast, Int64.ofInt_sub]
    rfl
  have hle : (0 : Int64) ≤ Int64.ofNat (count - 1) := by
    rw [Int64.le_iff_toInt_le, Int64.toInt_ofNat_of_lt (by omega), Int64.toInt_zero]
    exact Int.natCast_nonneg _
  rw [sized_eq_elim, hsize, Option.elim_some, hupper, arrayOf_of_le hle]

/-- An array of any size has its bounds in order. -/
theorem exists_of_sized {base type : DataType} {count : Nat} (h : base.sized count = .ok type) :
    ∃ lower upper, lower ≤ upper ∧ type = .array base lower upper := by
  rw [sized_eq_elim] at h
  cases hsize : toInt64? count with
  | none => simp [hsize] at h
  | some size =>
    rw [hsize, Option.elim_some, arrayOf_eq_ok_iff] at h
    exact ⟨0, size - 1, h⟩

/-- The upper bound of an array that is numbered from zero is one less than the number of elements. -/
theorem toInt_ofNat_pred {count : Nat} (hpos : 0 < count) (hcount : count < 2 ^ 63) :
    (Int64.ofNat (count - 1)).toInt = (count : Int) - 1 := by
  rw [Int64.toInt_ofNat_of_lt (by omega)]
  omega

/-- An array that is numbered from zero up to a 64-bit integer has as many elements as before. -/
theorem elementCount?_zeroBased {base : DataType} {count : Nat} (hpos : 0 < count)
    (hcount : count < 2 ^ 63) :
    (array base 0 (Int64.ofNat (count - 1))).elementCount? = some count := by
  have hsize : ((count : Int) - 1 - 0).natAbs + 1 = count := by omega
  rw [elementCount?, Int64.toInt_zero, toInt_ofNat_pred hpos hcount, hsize, Option.filter_some,
    if_pos (decide_eq_true (show count < 2 ^ 64 by omega))]

/-- No array has more elements than a 64-bit integer can tell by its size. -/
theorem sized_of_large (base : DataType) {count : Nat} (h : 2 ^ 63 ≤ count) :
    base.sized count = .error (.unreadable (toString count)) := by
  have hsize : toInt64? count = none := if_neg (by omega)
  rw [sized_eq_elim, hsize, Option.elim_none]

/-- No array has no elements. -/
theorem sized_zero (base : DataType) : base.sized 0 = .error (.inverted 0 (-1)) := by
  have hsize : toInt64? (0 : Nat) = some 0 := by decide
  rw [sized_eq_elim, hsize, Option.elim_some, arrayOf, if_pos (by decide)]
  rfl

/-- An array is made of a number of elements if the number is positive and a 64-bit integer, and then it
is numbered from zero and counted by the number. -/
theorem sized_eq_ok_iff {base type : DataType} {count : Nat} : base.sized count = .ok type ↔
    (1 ≤ count ∧ count ≤ 2 ^ 63 - 1) ∧ type = .array base 0 (Int64.ofNat (count - 1)) := by
  by_cases hpos : 0 < count
  · by_cases hcount : count < 2 ^ 63
    · rw [sized_of_pos hpos hcount, Except.ok.injEq, eq_comm]
      exact (and_iff_right ⟨hpos, by omega⟩).symm
    · rw [sized_of_large base (Nat.not_lt.mp hcount)]
      simp only [reduceCtorEq, false_iff]
      omega
  · obtain rfl : count = 0 := by omega
    rw [sized_zero]
    simp

/-- The elements of an array are counted by 64-bit words. -/
theorem elementCount?_eq_words (base : DataType) (lower upper : Int64) :
    (array base lower upper).elementCount? = (successor? (distance lower upper)).map UInt64.toNat := by
  rw [map_toNat_successor?, toNat_distance, elementCount?]

/-- The elements of an array are counted from the lower bound up to the upper one, if that fits a word. -/
theorem elementCount?_eq_some_iff {base : DataType} {lower upper : Int64} {count : Nat} (h : lower ≤ upper) :
    (array base lower upper).elementCount? = some count ↔
      (count : Int) = upper.toInt - lower.toInt + 1 ∧ count < 2 ^ 64 := by
  have hle := Int64.le_iff_toInt_le.mp h
  rw [elementCount?, Option.filter_eq_some_iff, Option.some.injEq, decide_eq_true_iff]
  constructor
  · rintro ⟨hcount, hfits⟩
    exact ⟨by omega, hfits⟩
  · rintro ⟨hcount, hfits⟩
    exact ⟨by omega, hfits⟩

/-- Only the array over all 64-bit integers has too many elements to count. -/
theorem elementCount?_eq_none_iff {base : DataType} {lower upper : Int64} (h : lower ≤ upper) :
    (array base lower upper).elementCount? = none ↔ lower = Int64.minValue ∧ upper = Int64.maxValue := by
  have hle := Int64.le_iff_toInt_le.mp h
  have hleast := lower.le_toInt
  have hgreatest := upper.toInt_lt
  rw [elementCount?, Option.filter_eq_none_iff, ← Int64.toInt_inj, ← Int64.toInt_inj, Int64.toInt_minValue,
    Int64.toInt_maxValue]
  constructor
  · intro hlarge
    have hcount := hlarge _ rfl
    rw [decide_eq_true_iff] at hcount
    omega
  · rintro ⟨hlower, hupper⟩ count hcount
    rw [decide_eq_true_iff, ← Option.some.inj hcount, hlower, hupper]
    decide

/-- What can be made by its number of elements is exactly what a positive 64-bit integer counts, and the
upper bound and the number come out without a wrap. The bounds of an array give its number of elements by
words, again without a wrap, unless the array reaches over all 64-bit integers. -/
theorem sizes_exact (base : DataType) :
    (∀ count : ℕ,
      ((∃ type, base.sized count = .ok type) ↔ 1 ≤ count ∧ count ≤ 2 ^ 63 - 1) ∧
      (∀ type, base.sized count = .ok type → ∃ upper : Int64, type = .array base 0 upper ∧
        upper.toInt = count - 1 ∧ type.elementCount? = some count) ∧
      (count = 0 → base.sized count = .error (.inverted 0 (-1))) ∧
      (2 ^ 63 ≤ count → base.sized count = .error (.unreadable (toString count)))) ∧
    ∀ lower upper : Int64, lower ≤ upper →
      ((distance lower upper).toNat : ℤ) = upper.toInt - lower.toInt ∧
      (array base lower upper).elementCount? = (successor? (distance lower upper)).map UInt64.toNat ∧
      (∀ count : ℕ, (array base lower upper).elementCount? = some count ↔
        (count : ℤ) = upper.toInt - lower.toInt + 1 ∧ count < 2 ^ 64) ∧
      ((array base lower upper).elementCount? = none ↔
        lower = Int64.minValue ∧ upper = Int64.maxValue) := by
  constructor
  · intro count
    refine ⟨?_, ?_, ?_, sized_of_large base⟩
    · simp only [sized_eq_ok_iff, exists_and_left, exists_eq, and_true]
    · intro type htype
      obtain ⟨⟨hpos, hcount⟩, rfl⟩ := sized_eq_ok_iff.mp htype
      have hsmall : count < 2 ^ 63 := by omega
      exact ⟨_, rfl, toInt_ofNat_pred hpos hsmall, elementCount?_zeroBased hpos hsmall⟩
    · rintro rfl
      exact sized_zero base
  · intro lower upper h
    have hle := Int64.le_iff_toInt_le.mp h
    refine ⟨?_, elementCount?_eq_words base lower upper, fun count => elementCount?_eq_some_iff h,
      elementCount?_eq_none_iff h⟩
    rw [toNat_distance]
    omega

/-- The array over all 64-bit integers is not counted, but the one without the least of them is. -/
example : (array (.scalar .real) Int64.minValue Int64.maxValue).elementCount? = none ∧
    (array (.scalar .real) (Int64.minValue + 1) Int64.maxValue).elementCount? = some (2 ^ 64 - 1) := by
  decide

end DataType

end PlcTypes
