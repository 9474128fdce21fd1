import Mathlib.Algebra.Group.Nat.Defs
import PlcTypes.Number.Integer

/-!
# Written numbers read back

Digits are read by the usual positional evaluation, so the decimal spelling of a natural number
or of a 64-bit integer reads back as the number.
-/

namespace PlcTypes.Number

/-- An ASCII digit is its distance from zero. -/
theorem digitValue?_of_isDigit {c : Char} (h : c.isDigit = true) :
    digitValue? 10 c = some (c.toNat - '0'.toNat) := by
  have hrange : 0x30 ≤ c.toNat ∧ c.toNat ≤ 0x39 := by
    simpa [Char.isDigit, UInt32.le_iff_toNat_le] using h
  have hzero : '0'.toNat = 0x30 := rfl
  simp only [digitValue?, hrange.1, hrange.2, decide_true, Bool.and_self, if_true, hzero]
  rw [if_pos (by omega)]

/-- Digits are read by positional evaluation. -/
theorem readDigitsFrom_of_isDigit {text : List Char} (read : Nat)
    (h : ∀ c ∈ text, c.isDigit = true) :
    readDigitsFrom 10 read text = some (Nat.ofDigitChars 10 text read) := by
  induction text generalizing read with
  | nil => rfl
  | cons c text ih =>
    rw [readDigitsFrom, digitValue?_of_isDigit (h c List.mem_cons_self), Option.bind_some,
      ih _ fun d hd => h d (List.mem_cons_of_mem _ hd), Nat.ofDigitChars_cons, Nat.mul_comm read]

/-- At least one digit and nothing else is a number. -/
theorem readDigits_of_isDigit {text : List Char} (hne : text ≠ [])
    (h : ∀ c ∈ text, c.isDigit = true) :
    readDigits 10 text = some (Nat.ofDigitChars 10 text 0) := by
  obtain ⟨c, rest, rfl⟩ := List.exists_cons_of_ne_nil hne
  exact readDigitsFrom_of_isDigit 0 h

/-- The point is no digit. -/
theorem readDigitsFrom_of_mem_point {text : List Char} (read : Nat) (h : '.' ∈ text) :
    readDigitsFrom 10 read text = none := by
  induction text generalizing read with
  | nil => simp at h
  | cons c text ih =>
    rw [readDigitsFrom, Option.bind_eq_none_iff]
    intro value hvalue
    rcases List.mem_cons.mp h with rfl | h
    · simp [digitValue?] at hvalue
    · exact ih _ h

/-- A text with a point in it is no number of digits alone. -/
theorem readDigits_of_mem_point {text : List Char} (h : '.' ∈ text) : readDigits 10 text = none := by
  cases text with
  | nil => rfl
  | cons c text => exact readDigitsFrom_of_mem_point 0 h

/-- A text with a point in it is no integer. -/
theorem readSigned_of_mem_point {text : List Char} (h : '.' ∈ text) : readSigned 10 text = none := by
  unfold readSigned readUnsigned
  split
  · rw [readDigits_of_mem_point (by simpa using h)]
    rfl
  · split
    · rw [readDigits_of_mem_point (by simpa using h)]
      rfl
    · rw [readDigits_of_mem_point h]
      rfl

/-- The decimal digits of a number are ASCII digits. -/
theorem isDigit_of_mem_toDigits {n : Nat} {c : Char} (h : c ∈ Nat.toDigits 10 n) :
    c.isDigit = true :=
  Nat.isDigit_of_mem_toDigits (by decide) (by decide) h

/-- The decimal digits of a number read back. -/
theorem readDigits_toDigits (n : Nat) : readDigits 10 (Nat.toDigits 10 n) = some n := by
  rw [readDigits_of_isDigit Nat.toDigits_ne_nil fun c => isDigit_of_mem_toDigits,
    Nat.ofDigitChars_ten_toDigits]

/-- A decimal spelling holds nothing but digits. -/
theorem notMem_toDigits {c : Char} (hc : c.isDigit = false) (n : Nat) : c ∉ Nat.toDigits 10 n := by
  intro hmem
  rw [isDigit_of_mem_toDigits hmem] at hc
  cases hc

/-- A decimal spelling does not start with a sign. -/
theorem toDigits_eq_cons (n : Nat) :
    ∃ c rest, Nat.toDigits 10 n = c :: rest ∧ c.isDigit = true ∧ c ≠ '+' ∧ c ≠ '-' := by
  obtain ⟨c, rest, h⟩ := List.exists_cons_of_ne_nil (Nat.toDigits_ne_nil (n := n) (b := 10))
  have hc : c.isDigit = true := isDigit_of_mem_toDigits (h ▸ List.mem_cons_self)
  refine ⟨c, rest, h, hc, ?_, ?_⟩ <;> rintro rfl <;> exact absurd hc (by decide)

/-- A text that does not start with a plus sign is read by its digits alone. -/
theorem readUnsigned_of_ne {base : Nat} {c : Char} (rest : List Char) (h : c ≠ '+') :
    readUnsigned base (c :: rest) = readDigits base (c :: rest) := by
  rw [readUnsigned]
  intro text heq
  exact absurd (List.cons.inj heq).1 h

/-- A text that does not start with a minus sign is read as an unsigned number. -/
theorem readSigned_of_ne {base : Nat} {c : Char} (rest : List Char) (h : c ≠ '-') :
    readSigned base (c :: rest) = (readUnsigned base (c :: rest)).map fun n => (n : Int) := by
  rw [readSigned]
  intro text heq
  exact absurd (List.cons.inj heq).1 h

/-- The decimal spelling of a natural number reads back. -/
theorem readUnsigned_toDigits (n : Nat) : readUnsigned 10 (Nat.toDigits 10 n) = some n := by
  obtain ⟨c, rest, h, -, hplus, -⟩ := toDigits_eq_cons n
  rw [h, readUnsigned_of_ne rest hplus, ← h, readDigits_toDigits]

/-- An integer is spelled by the digits of its magnitude, behind a minus sign if it is
negative. -/
theorem toList_toString_int (value : Int) :
    (toString value).toList =
      if 0 ≤ value then Nat.toDigits 10 value.natAbs else '-' :: Nat.toDigits 10 value.natAbs := by
  rw [Int.toString_eq_repr, Int.repr_eq_if]
  split
  · rw [Nat.toList_repr, show value.toNat = value.natAbs by omega]
  · rw [String.toList_append, Nat.toList_repr, show (-value).toNat = value.natAbs by omega]
    rfl

/-- The decimal spelling of an integer reads back. -/
theorem readSigned_toString (value : Int) : readSigned 10 (toString value).toList = some value := by
  rw [toList_toString_int]
  split
  · obtain ⟨c, rest, h, -, -, hminus⟩ := toDigits_eq_cons value.natAbs
    rw [h, readSigned_of_ne rest hminus, ← h, readUnsigned_toDigits]
    change some (value.natAbs : Int) = some value
    rw [Option.some.injEq]
    omega
  · rw [readSigned, readDigits_toDigits]
    change some (-(value.natAbs : Int)) = some value
    rw [Option.some.injEq]
    omega

/-- A 64-bit integer is the one with its value. -/
theorem toInt64?_toInt (value : Int64) : toInt64? value.toInt = some value := by
  rw [toInt64?, if_pos ⟨value.le_toInt, value.toInt_lt⟩, Int64.ofInt_toInt]

/-- The decimal spelling of a 64-bit integer reads back. -/
theorem readInt64_showInt64 (value : Int64) : readInt64 (showInt64 value).toList = some value := by
  rw [readInt64, showInt64, readSigned_toString, Option.bind_some, toInt64?_toInt]

/-- The decimal spelling of a natural number below `2 ^ 64` reads back. -/
theorem readUInt64_toDigits {n : Nat} (h : n < 2 ^ 64) :
    readUInt64 (Nat.toDigits 10 n) = some n := by
  rw [readUInt64, readUnsigned_toDigits, Option.filter_some, if_pos (by simpa using h)]

/-- A 64-bit integer is spelled by digits, with a minus sign in front if it is negative. -/
theorem toList_showInt64 (value : Int64) :
    (∃ n, (showInt64 value).toList = Nat.toDigits 10 n) ∨
      ∃ n, (showInt64 value).toList = '-' :: Nat.toDigits 10 n := by
  rw [showInt64, toList_toString_int]
  split
  · exact Or.inl ⟨_, rfl⟩
  · exact Or.inr ⟨_, rfl⟩

/-- The spelling of a 64-bit integer holds only digits and minus signs. -/
theorem of_mem_showInt64 {value : Int64} {c : Char} (h : c ∈ (showInt64 value).toList) :
    c.isDigit = true ∨ c = '-' := by
  rcases toList_showInt64 value with ⟨n, hn⟩ | ⟨n, hn⟩
  · exact Or.inl (isDigit_of_mem_toDigits (hn ▸ h))
  · rw [hn] at h
    rcases List.mem_cons.mp h with rfl | h
    · exact Or.inr rfl
    · exact Or.inl (isDigit_of_mem_toDigits h)

/-- Other characters are not in the spelling of a 64-bit integer. -/
theorem notMem_showInt64 {c : Char} (hdigit : c.isDigit = false) (hminus : c ≠ '-') (value : Int64) :
    c ∉ (showInt64 value).toList := by
  intro hmem
  rcases of_mem_showInt64 hmem with hc | hc
  · rw [hc] at hdigit
    cases hdigit
  · exact hminus hc

end PlcTypes.Number
