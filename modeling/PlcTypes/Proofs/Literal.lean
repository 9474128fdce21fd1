import PlcTypes.Literal
import PlcTypes.Proofs.Number.Real

/-!
# Typing is done once

A bare token is typed by its trimmed text, and what it is typed as is typed as itself again. So
fitting a literal to a type changes nothing the second time, and the spelling of any fitted
literal that is no text is a token for that literal.
-/

namespace PlcTypes

open Text Number

namespace Literal

/-- White space around a token does not matter. -/
theorem ofToken_trim (token : List Char) : ofToken (trim token) = ofToken token := by
  have h : trim (trim token) = trim token := isTrimmed_trim token
  rw [ofToken, ofToken, h]

/-- A text that is more than white space and, without the white space around it, reads as none of
the other kinds of values. -/
structure IsPlainText (text : String) : Prop where
  nonblank : trim text.toList ≠ []
  notTrue : sameIgnoringCase (trim text.toList) "true".toList = false
  notFalse : sameIgnoringCase (trim text.toList) "false".toList = false
  notInt : readInt64 (trim text.toList) = none
  notReal : readFiniteReal (trim text.toList) = none

/-- A value as a member of the type can have it: members of the text type have texts, other members
no texts that read as something else, and members of the real type no integers. -/
def IsFitted (type : DataType) : Literal → Prop
  | text value => type = .scalar .string ∨ IsPlainText value
  | int _ => type ≠ .scalar .string ∧ type ≠ .scalar .real
  | _ => type ≠ .scalar .string

/-- A token is typed as a text if it reads as none of the other kinds of values. -/
theorem ofToken_eq_text_iff {token : List Char} {value : String} :
    ofToken token = .text value ↔ sameIgnoringCase (trim token) "true".toList = false ∧
      sameIgnoringCase (trim token) "false".toList = false ∧ readInt64 (trim token) = none ∧
      readFiniteReal (trim token) = none ∧ value.toList = trim token := by
  unfold ofToken
  dsimp only
  split
  · rename_i htrue
    simp [htrue, -String.reduceToList]
  · rename_i htrue
    split
    · rename_i hfalse
      simp [hfalse, -String.reduceToList]
    · rename_i hfalse
      split
      · rename_i hint
        simp [hint]
      · rename_i hint hreal
        simp [hreal]
      · rename_i hint hreal
        rw [Bool.not_eq_true] at htrue hfalse
        rw [Literal.text.injEq]
        constructor
        · intro hvalue
          exact ⟨htrue, hfalse, hint, hreal, by rw [← hvalue, String.toList_ofList]⟩
        · rintro ⟨-, -, -, -, hvalue⟩
          rw [← hvalue, String.ofList_toList]

/-- What a token that is typed as a text stands for is the trimmed token. -/
theorem eq_of_ofToken_text {token : List Char} {value : String} (h : ofToken token = .text value) :
    value.toList = trim token :=
  (ofToken_eq_text_iff.mp h).2.2.2.2

/-- Typing a typed token changes nothing. -/
theorem typed_ofToken (token : List Char) : (ofToken token).typed = ofToken token := by
  cases h : ofToken token with
  | text value => rw [typed, eq_of_ofToken_text h, ofToken_trim, h]
  | bool value => rfl
  | int value => rfl
  | real value => rfl

/-- Typing a second time changes nothing. -/
theorem typed_typed (value : Literal) : value.typed.typed = value.typed := by
  cases value with
  | text value => exact typed_ofToken value.toList
  | bool value => rfl
  | int value => rfl
  | real value => rfl

/-- Widening a typed literal leaves it typed, and leaves no integer. -/
theorem widened_typed_widened {value : Literal} (h : value.typed = value) :
    value.widened.typed.widened = value.widened := by
  cases value with
  | text text =>
    change (typed (.text text)).widened = .text text
    rw [h]
    rfl
  | bool value => rfl
  | int value => rfl
  | real value => rfl

/-- What a literal is fitted to a type by: its spelling, its typing, or its typing widened. -/
theorem coerce_eq (type : DataType) (value : Literal) :
    (type.isString = true ∧ coerce type value = .text value.spelling) ∨
      (type.isString = false ∧
        (coerce type value = value.typed.widened ∧ type = .scalar .real ∨
          coerce type value = value.typed ∧ coerce type value.typed = value.typed.typed)) := by
  cases type with
  | scalar kind => cases kind <;> simp [coerce, DataType.isString]
  | array base lower upper => exact Or.inr ⟨by simp [DataType.isString], Or.inr ⟨rfl, rfl⟩⟩
  | named name => exact Or.inr ⟨by simp [DataType.isString], Or.inr ⟨rfl, rfl⟩⟩

/-- Fitting a literal to a type a second time changes nothing. -/
theorem coerce_coerce (type : DataType) (value : Literal) :
    coerce type (coerce type value) = coerce type value := by
  rcases coerce_eq type value with ⟨hstring, h⟩ | ⟨-, ⟨h, rfl⟩ | ⟨h, hagain⟩⟩
  · obtain rfl : type = .scalar .string := by simpa [DataType.isString] using hstring
    rfl
  · rw [h]
    exact widened_typed_widened (typed_typed value)
  · rw [h, hagain, typed_typed]

/-- A literal fitted to any type but that of texts is typed. -/
theorem typed_of_coerce {type : DataType} {value : Literal} (hstring : type.isString = false)
    (h : coerce type value = value) : value.typed = value := by
  rcases coerce_eq type value with ⟨htext, -⟩ | ⟨-, ⟨hreal, -⟩ | ⟨htyped, -⟩⟩
  · simp [htext] at hstring
  · cases value with
    | text text =>
      rw [h] at hreal
      cases htyped : typed (.text text) with
      | text other =>
        rw [hreal, htyped]
        rfl
      | int other => simp [htyped, widened] at hreal
      | bool other => simp [htyped, widened] at hreal
      | real other => simp [htyped, widened] at hreal
    | bool value => rfl
    | int value => rfl
    | real value => rfl
  · rw [← htyped, h]

/-- A literal that is fitted to a type and not dropped as a blank text can be had by a member of the
type. -/
theorem isFitted_of_coerce {type : DataType} {value : Literal} (h : coerce type value = value)
    (hkeep : (type.isString || !value.isBlankText) = true) : value.IsFitted type := by
  by_cases hstring : type = .scalar .string
  · subst hstring
    cases value with
    | text value => exact Or.inl rfl
    | bool value => simp [coerce] at h
    | int value => simp [coerce] at h
    | real value => simp [coerce] at h
  · have hnot : type.isString = false := by simpa [DataType.isString] using hstring
    cases value with
    | text value =>
      obtain ⟨htrue, hfalse, hint, hreal, -⟩ := ofToken_eq_text_iff.mp (typed_of_coerce hnot h)
      refine Or.inr ⟨fun hnil => ?_, htrue, hfalse, hint, hreal⟩
      simp [hnot, isBlankText, hnil] at hkeep
    | bool value => exact hstring
    | int value =>
      refine ⟨hstring, ?_⟩
      rintro rfl
      simp [coerce, typed, widened] at h
    | real value => exact hstring

/-- A literal that is no real or a finite one. -/
def IsFinite : Literal → Prop
  | real value => value.isFinite = true
  | _ => True

/-- No token stands for a real that is not finite. -/
theorem isFinite_ofToken (token : List Char) : (ofToken token).IsFinite := by
  unfold ofToken
  dsimp only
  split
  · trivial
  · split
    · trivial
    · split
      · trivial
      · rename_i value _ hreal
        exact (Option.filter_eq_some_iff.mp hreal).2
      · trivial

/-- Fitting a literal to a type gives no real that is not finite, unless it is one. -/
theorem IsFinite.coerce {value : Literal} (h : value.IsFinite) (type : DataType) :
    (coerce type value).IsFinite := by
  have htyped : value.typed.IsFinite := by
    cases value with
    | text value => exact isFinite_ofToken value.toList
    | bool value => trivial
    | int value => trivial
    | real value => exact h
  have hwidened : value.typed.widened.IsFinite := by
    cases hvalue : value.typed with
    | int value => exact Binary64.isFinite_ofInt value
    | real value =>
      rw [hvalue] at htyped
      exact htyped
    | bool value => trivial
    | text value => trivial
  rcases coerce_eq type value with ⟨-, heq⟩ | ⟨-, ⟨heq, -⟩ | ⟨heq, -⟩⟩
  · rw [heq]
    trivial
  · rw [heq]
    exact hwidened
  · rw [heq]
    exact htyped

/-- A word in any letter case has no white space around it. -/
theorem isTrimmed_of_sameIgnoringCase {word keyword : List Char}
    (h : sameIgnoringCase word keyword = true) (hkeyword : ∀ c ∈ keyword, c.isAlpha = true) :
    IsTrimmed word := by
  rw [sameIgnoringCase_comm] at h
  exact isTrimmed_of_all fun c hc => isSpace_of_isAlpha (isAlpha_of_sameIgnoringCase h hkeyword c hc)

/-- The words for the truth values are read in any letter case. -/
theorem ofToken_true {word : List Char} (h : sameIgnoringCase word "true".toList = true) :
    ofToken word = .bool true := by
  have htrim : trim word = word := isTrimmed_of_sameIgnoringCase h (by decide)
  simp only [ofToken, htrim, h, if_true]

/-- The words for the truth values are read in any letter case. -/
theorem ofToken_false {word : List Char} (h : sameIgnoringCase word "false".toList = true) :
    ofToken word = .bool false := by
  have htrim : trim word = word := isTrimmed_of_sameIgnoringCase h (by decide)
  have htrue : sameIgnoringCase word "true".toList = false := by
    by_contra hsame
    rw [Bool.not_eq_false, sameIgnoringCase_comm] at hsame
    rw [sameIgnoringCase_comm] at h
    have hlength := length_of_sameIgnoringCase hsame
    rw [length_of_sameIgnoringCase h] at hlength
    exact absurd hlength (by decide)
  simp only [ofToken, htrim, h, htrue, Bool.false_eq_true, if_false, if_true]

/-- A token without white space and with a character that is no letter is typed as a number if it
can be read as one. -/
theorem ofToken_of_not_letters {token : List Char} {c : Char} (hmem : c ∈ token)
    (hc : c.isAlpha = false) (hspace : ∀ d ∈ token, isSpace d = false) :
    ofToken token =
      match readInt64 token, readFiniteReal token with
      | some value, _ => .int value
      | none, some value => .real value
      | none, none => .text (String.ofList token) := by
  have htrim : trim token = token := isTrimmed_of_all hspace
  have htrue : sameIgnoringCase token "true".toList = false :=
    sameIgnoringCase_eq_false_of_mem hmem hc (by decide)
  have hfalse : sameIgnoringCase token "false".toList = false :=
    sameIgnoringCase_eq_false_of_mem hmem hc (by decide)
  rw [ofToken, htrim, htrue, hfalse]
  rfl

/-- A spelled integer is typed as the integer. -/
theorem ofToken_showInt64 (value : Int64) : ofToken (showInt64 value).toList = .int value := by
  have hdigit {c : Char} (h : c.isDigit = true) : c.isAlpha = false := by
    rw [Bool.eq_false_iff]
    intro halpha
    have := isDigit_iff.mp h
    have := isAlpha_iff.mp halpha
    omega
  have hchars : ∀ c ∈ (showInt64 value).toList, isSpace c = false ∧ c.isAlpha = false := by
    intro c hc
    rcases of_mem_showInt64 hc with h | rfl
    · exact ⟨isSpace_of_isDigit h, hdigit h⟩
    · decide
  obtain ⟨c, hc⟩ : ∃ c, c ∈ (showInt64 value).toList := by
    apply List.exists_mem_of_ne_nil
    rcases toList_showInt64 value with ⟨n, h⟩ | ⟨n, h⟩ <;> simp [h, Nat.toDigits_ne_nil]
  rw [ofToken_of_not_letters hc (hchars c hc).2 fun d hd => (hchars d hd).1, readInt64_showInt64]

/-- A spelled finite real is typed as the real. -/
theorem ofToken_plainReal {value : Binary64} (h : value.isFinite = true) :
    ofToken (plainReal value) = .real value := by
  obtain ⟨hpoint, hchars⟩ := of_mem_plainReal h
  have hspace : ∀ c ∈ plainReal value, isSpace c = false := by
    intro c hc
    rcases hchars c hc with hdigit | rfl | rfl
    · exact isSpace_of_isDigit hdigit
    · decide
    · decide
  rw [ofToken_of_not_letters hpoint (by decide) hspace, readInt64, readSigned_of_mem_point hpoint,
    readFiniteReal_plainReal h]
  rfl

end Literal

end PlcTypes
