import Mathlib
import PlcTypes.Proofs.Text.Search
import PlcTypes.Proofs.Text.Space
import PlcTypes.Text.Digit

/-!
# Letters, digits and identifiers

No letter or digit of the ASCII range is white space, and letter case does not decide whether a
character is a letter. An identifier is read whole where something else follows it.
-/

namespace PlcTypes.Text

/-- An ASCII digit by its code point. -/
theorem isDigit_iff {c : Char} : c.isDigit = true ↔ 0x30 ≤ c.toNat ∧ c.toNat ≤ 0x39 := by
  simp [Char.isDigit, UInt32.le_iff_toNat_le]

/-- An ASCII letter by its code point. -/
theorem isAlpha_iff {c : Char} :
    c.isAlpha = true ↔
      (0x41 ≤ c.toNat ∧ c.toNat ≤ 0x5A) ∨ (0x61 ≤ c.toNat ∧ c.toNat ≤ 0x7A) := by
  simp [Char.isAlpha, Char.isUpper, Char.isLower, UInt32.le_iff_toNat_le]

/-- White space by its code point, as far as the ASCII range goes. -/
theorem isSpace_eq_false_of_printable {c : Char} (h : 0x21 ≤ c.toNat ∧ c.toNat ≤ 0x7E) :
    isSpace c = false := by
  simp only [isSpace, Bool.or_eq_false_iff, Bool.and_eq_false_iff, beq_eq_false_iff_ne,
    decide_eq_false_iff_not]
  omega

/-- A digit is no white space. -/
theorem isSpace_of_isDigit {c : Char} (h : c.isDigit = true) : isSpace c = false :=
  isSpace_eq_false_of_printable (by have := isDigit_iff.mp h; omega)

/-- A letter is no white space. -/
theorem isSpace_of_isAlpha {c : Char} (h : c.isAlpha = true) : isSpace c = false :=
  isSpace_eq_false_of_printable (by have := isAlpha_iff.mp h; omega)

/-- A blank is a space or a tab. -/
theorem eq_of_isBlank {c : Char} (h : isBlank c = true) : c = ' ' ∨ c = '\t' := by
  simpa [isBlank] using h

/-- A blank is white space. -/
theorem isSpace_of_isBlank {c : Char} (h : isBlank c = true) : isSpace c = true := by
  simp only [isBlank, Bool.or_eq_true, beq_iff_eq] at h
  rcases h with rfl | rfl <;> decide

/-- A blank in front does not matter to the trimmed text. -/
theorem trim_cons_of_isBlank {c : Char} (hc : isBlank c = true) (text : List Char) :
    trim (c :: text) = trim text := by
  have hspace : ∀ d ∈ [c], isSpace d = true := by simpa using isSpace_of_isBlank hc
  exact trim_append_left text hspace

/-- Blanks at the end do not matter to the trimmed text. -/
theorem trim_append_dropEndWhile_isBlank (before text : List Char) :
    trim (before ++ dropEndWhile isBlank text) = trim (before ++ text) := by
  obtain ⟨tail, hsplit, htail⟩ := exists_dropEndWhile_append isBlank text
  conv_rhs => rw [hsplit, ← List.append_assoc,
    trim_append_right _ fun c hc => isSpace_of_isBlank (htail c hc)]

/-- What is no white space is no blank. -/
theorem isBlank_of_isSpace_eq_false {c : Char} (h : isSpace c = false) : isBlank c = false := by
  by_contra hblank
  rw [Bool.not_eq_false] at hblank
  simp [isSpace_of_isBlank hblank] at h

/-- A word with the letters of another one in some letter case is of letters as well. -/
theorem isAlpha_of_sameIgnoringCase {word found : List Char}
    (h : sameIgnoringCase word found = true) (hword : ∀ c ∈ word, c.isAlpha = true) :
    ∀ c ∈ found, c.isAlpha = true := by
  rw [sameIgnoringCase, beq_iff_eq] at h
  intro c hc
  have hlower : c.toLower ∈ word.map Char.toLower := h ▸ List.mem_map_of_mem hc
  obtain ⟨d, hd, heq⟩ := List.mem_map.mp hlower
  rw [← Char.isAlpha_toLower_eq_isAlpha, ← heq, Char.isAlpha_toLower_eq_isAlpha]
  exact hword d hd

/-- Words that agree up to letter case are equally long. -/
theorem length_of_sameIgnoringCase {word found : List Char}
    (h : sameIgnoringCase word found = true) : found.length = word.length := by
  rw [sameIgnoringCase, beq_iff_eq] at h
  simpa using (congrArg List.length h).symm

/-- Agreement up to letter case goes both ways. -/
theorem sameIgnoringCase_comm (a b : List Char) : sameIgnoringCase a b = sameIgnoringCase b a :=
  Bool.beq_comm

/-- A text with another character in it agrees with no word of letters. -/
theorem sameIgnoringCase_eq_false_of_mem {text word : List Char} {c : Char} (hmem : c ∈ text)
    (hc : c.isAlpha = false) (hword : ∀ d ∈ word, d.isAlpha = true) :
    sameIgnoringCase text word = false := by
  by_contra hsame
  rw [Bool.not_eq_false, sameIgnoringCase_comm] at hsame
  simp [isAlpha_of_sameIgnoringCase hsame hword c hmem] at hc

/-- An identifier in front of a character of another kind is read whole. -/
theorem takeIdentifier?_append {name : List Char} {stop : Char} (rest : List Char)
    (hname : isIdentifier name = true) (hstop : isNameChar stop = false) :
    takeIdentifier? (name ++ stop :: rest) = some (name, stop :: rest) := by
  cases name with
  | nil => simp [isIdentifier] at hname
  | cons c tail =>
    simp only [isIdentifier, Bool.and_eq_true, List.all_eq_true] at hname
    rw [List.cons_append, takeIdentifier?, if_pos hname.1,
      takeWhile_append_cons rest hname.2 hstop, dropWhile_append_cons rest hname.2 hstop]

/-- The identifier in front of a text is an identifier and the start of the text. -/
theorem takeIdentifier?_spec {text name rest : List Char} (h : takeIdentifier? text = some (name, rest)) :
    isIdentifier name = true ∧ text = name ++ rest := by
  cases text with
  | nil => simp [takeIdentifier?] at h
  | cons c tail =>
    rw [takeIdentifier?] at h
    split at h
    · rename_i hstart
      simp only [Option.some.injEq, Prod.mk.injEq] at h
      obtain ⟨rfl, rfl⟩ := h
      refine ⟨?_, by rw [List.cons_append, List.takeWhile_append_dropWhile]⟩
      rw [isIdentifier, hstart, Bool.true_and, List.all_eq_true]
      exact fun d hd => List.mem_takeWhile_imp hd
    · simp at h

/-- The characters of an identifier are those it may go on with. -/
theorem isNameChar_of_mem {name : List Char} {c : Char} (hname : isIdentifier name = true)
    (hc : c ∈ name) : isNameChar c = true := by
  cases name with
  | nil => simp at hc
  | cons d tail =>
    simp only [isIdentifier, Bool.and_eq_true, List.all_eq_true] at hname
    rcases List.mem_cons.mp hc with rfl | hc
    · have hstart := hname.1
      simp only [isNameStart, isNameChar, Char.isAlphanum, Bool.or_eq_true] at hstart ⊢
      tauto
    · exact hname.2 c hc

/-- A character of an identifier is no white space. -/
theorem isSpace_of_isNameChar {c : Char} (h : isNameChar c = true) : isSpace c = false := by
  simp only [isNameChar, Char.isAlphanum, Bool.or_eq_true, beq_iff_eq] at h
  rcases h with (h | h) | rfl
  · exact isSpace_of_isAlpha h
  · exact isSpace_of_isDigit h
  · decide

end PlcTypes.Text
