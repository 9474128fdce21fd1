import PlcTypes.Proofs.Text.Ascii
import PlcTypes.Proofs.Text.Keyword
import PlcTypes.StructuredText.Quoted

/-!
# Quoted texts read back

Every character is escaped as itself, as a dollar sign and a letter, or as a dollar sign and two
hexadecimal digits. The scanner passes over each of these as a whole and stops at the closing
quote, and resolving the escapes gives the text again. An escape cannot make up a keyword: the
only word characters it ends with follow a digit.
-/

namespace PlcTypes.StructuredText

open Number Text

/-- The shapes of an escaped character. A letter behind a dollar sign stands for a control
character or is taken for nothing but itself. -/
inductive EscapesTo (c : Char) : List Char → Prop
  | plain (hdollar : c ≠ '$') (hquote : c ≠ '\'') (hreturn : c ≠ '\r') (hfeed : c ≠ '\n') :
      EscapesTo c [c]
  | letter {d : Char} (hletter : d ∈ ['$', '\'', 'N', 'R', 'T', 'P'])
      (hvalue : (letterEscape? d).getD d = c) : EscapesTo c ['$', d]
  | code {high low : Char} (hhigh : high.isDigit = true) (hlow : low.isAlphanum = true)
      (hvalue : codeEscape? high low = some c) : EscapesTo c ['$', high, low]

/-- A hexadecimal digit is a digit or a letter, and reads back. -/
theorem hexDigit_spec (n : Nat) :
    (hexDigit n).isAlphanum = true ∧ digitValue? 16 (hexDigit n) = some (n % 16) := by
  have hsmall : ∀ m < 16, (hexDigit m).isAlphanum = true ∧ digitValue? 16 (hexDigit m) = some m := by
    decide
  have hmod : hexDigit n = hexDigit (n % 16) := by
    rw [hexDigit, hexDigit, Nat.mod_mod]
  rw [hmod]
  exact hsmall _ (Nat.mod_lt n (by decide))

/-- A hexadecimal digit below ten is a decimal digit. -/
theorem isDigit_hexDigit {n : Nat} (h : n < 10) : (hexDigit n).isDigit = true := by
  have hsmall : ∀ m < 10, (hexDigit m).isDigit = true := by decide
  exact hsmall n h

/-- Every character is escaped in one of the three shapes. -/
theorem escapesTo_escape (c : Char) : EscapesTo c (escape c) := by
  unfold escape
  split_ifs with hdollar hquote hfeed hreturn htab hpage hcontrol
  · exact .letter (by simp) hdollar.symm
  · exact .letter (by simp) hquote.symm
  · exact .letter (by simp) hfeed.symm
  · exact .letter (by simp) hreturn.symm
  · exact .letter (by simp) htab.symm
  · exact .letter (by simp) hpage.symm
  · have hsmall : c.toNat / 16 < 10 := by
      simp only [isControl, Bool.or_eq_true, Bool.and_eq_true, decide_eq_true_eq] at hcontrol
      omega
    refine .code (isDigit_hexDigit hsmall) (hexDigit_spec c.toNat).1 ?_
    rw [codeEscape?, (hexDigit_spec _).2, (hexDigit_spec _).2, Option.bind_some, Option.map_some,
      Option.some.injEq, Nat.mod_eq_of_lt (by omega), show c.toNat / 16 * 16 + c.toNat % 16 = c.toNat by
        omega, Char.ofNat_toNat]
  · exact .plain hdollar hquote hreturn hfeed

/-- A letter or digit is no quote, no dollar sign and no line break. -/
theorem ne_of_isAlphanum {c d : Char} (hc : c.isAlphanum = true) (hd : d.isAlphanum = false) :
    c ≠ d := by
  rintro rfl
  simp [hc] at hd

/-- The scanner passes over an escaped character. -/
theorem EscapesTo.takeQuoted? {c : Char} {escaped : List Char} (h : EscapesTo c escaped)
    (rest : List Char) :
    takeQuoted? (escaped ++ rest) =
      (StructuredText.takeQuoted? rest).map fun (inner, tail) => (escaped ++ inner, tail) := by
  have hplain {d : Char} (rest : List Char) (hdollar : d ≠ '$') (hquote : d ≠ '\'')
      (hbreak : ¬(d = '\r' ∨ d = '\n')) : StructuredText.takeQuoted? (d :: rest) =
        (StructuredText.takeQuoted? rest).map fun (inner, tail) => (d :: inner, tail) := by
    rw [StructuredText.takeQuoted?, if_neg hquote, if_neg hbreak]
    · rintro rfl
      exact absurd rfl hdollar
    · rintro c rest rfl
      exact absurd rfl hdollar
  cases h with
  | plain hdollar hquote hreturn hfeed =>
    exact hplain rest hdollar hquote (not_or.mpr ⟨hreturn, hfeed⟩)
  | @letter d hletter _ =>
    have hfeed : d ≠ '\n' := by
      rintro rfl
      simp at hletter
    simp only [List.cons_append, List.nil_append, StructuredText.takeQuoted?, if_neg hfeed]
  | @code high low hhigh hlow _ =>
    have hfeed : high ≠ '\n' :=
      ne_of_isAlphanum (by simp [Char.isAlphanum, hhigh]) (by decide)
    simp only [List.cons_append, List.nil_append, StructuredText.takeQuoted?, if_neg hfeed]
    rw [hplain rest (ne_of_isAlphanum hlow (by decide)) (ne_of_isAlphanum hlow (by decide))
      (not_or.mpr ⟨ne_of_isAlphanum hlow (by decide), ne_of_isAlphanum hlow (by decide)⟩)]
    cases StructuredText.takeQuoted? rest <;> rfl

/-- The scanner stops at the quote that closes an escaped text. -/
theorem takeQuoted?_escaped (text rest : List Char) :
    takeQuoted? (text.flatMap escape ++ '\'' :: rest) = some (text.flatMap escape, rest) := by
  induction text with
  | nil => simp [takeQuoted?]
  | cons c text ih =>
    rw [List.flatMap_cons, List.append_assoc, (escapesTo_escape c).takeQuoted?, ih]
    rfl

/-- What follows a quoted text is the end of the text. -/
theorem suffix_of_takeQuoted? {text inner rest : List Char}
    (h : takeQuoted? text = some (inner, rest)) : rest <:+ text := by
  fun_induction takeQuoted? text generalizing inner with
  | case1 | case2 | case3 | case6 => simp at h
  | case4 c text hc ih =>
    obtain ⟨⟨inner', rest'⟩, hfound, heq⟩ := Option.map_eq_some_iff.mp h
    obtain ⟨-, rfl⟩ := Prod.mk.inj heq
    exact (ih hfound).trans (List.suffix_append ['$', c] text)
  | case5 text =>
    obtain ⟨-, rfl⟩ := Prod.mk.inj (Option.some.inj h)
    exact List.suffix_cons _ text
  | case7 c text hend hescape hc hstop ih =>
    obtain ⟨⟨inner', rest'⟩, hfound, heq⟩ := Option.map_eq_some_iff.mp h
    obtain ⟨-, rfl⟩ := Prod.mk.inj heq
    exact (ih hfound).trans (List.suffix_cons c text)

/-- A letter behind a dollar sign is resolved on its own. -/
theorem unquote_letter {d : Char} (rest : List Char)
    (hcode : ∀ e, codeEscape? d e = none) :
    unquote ('$' :: d :: rest) = (letterEscape? d).getD d :: unquote rest := by
  cases rest with
  | nil => rfl
  | cons e rest =>
    rw [unquote]
    cases hletter : letterEscape? d with
    | some control => rfl
    | none =>
      rw [hcode e]
      rfl

/-- Resolving an escaped character gives the character. -/
theorem EscapesTo.unquote {c : Char} {escaped : List Char} (h : EscapesTo c escaped)
    (rest : List Char) : unquote (escaped ++ rest) = c :: StructuredText.unquote rest := by
  cases h with
  | plain hdollar hquote hreturn hfeed =>
    rw [List.singleton_append, StructuredText.unquote]
    · rintro rfl
      exact absurd rfl hdollar
    · rintro d rfl
      exact absurd rfl hdollar
    · rintro d e rest rfl
      exact absurd rfl hdollar
  | @letter d hletter hvalue =>
    have hcode : ∀ e, codeEscape? d e = none := by
      intro e
      have hbase : digitValue? 16 d = none := by
        simp only [List.mem_cons, List.not_mem_nil, or_false] at hletter
        rcases hletter with rfl | rfl | rfl | rfl | rfl | rfl <;> rfl
      rw [codeEscape?, hbase, Option.bind_none]
    rw [List.cons_append, List.cons_append, List.nil_append, unquote_letter rest hcode, hvalue]
  | @code high low hhigh _ hvalue =>
    have hletter : letterEscape? high = none := by
      have hne {d : Char} (hd : d.isDigit = false) : high ≠ d := by
        rintro rfl
        simp [hhigh] at hd
      simp [letterEscape?, hne]
    simp only [List.cons_append, List.nil_append, StructuredText.unquote, hletter, hvalue]

/-- Resolving the escapes of an escaped text gives the text. -/
theorem unquote_escaped (text : List Char) : unquote (text.flatMap escape) = text := by
  induction text with
  | nil => rfl
  | cons c text ih => rw [List.flatMap_cons, (escapesTo_escape c).unquote, ih]

/-- An escaped character holds no line break. -/
theorem EscapesTo.oneLine {c : Char} {escaped : List Char} (h : EscapesTo c escaped) :
    '\n' ∉ escaped ∧ '\r' ∉ escaped := by
  cases h with
  | plain _ _ hreturn hfeed => simp [Ne.symm hreturn, Ne.symm hfeed]
  | @letter d hletter _ =>
    constructor <;>
    · intro hmem
      rcases List.mem_cons.mp hmem with hdollar | hmem
      · exact absurd hdollar (by decide)
      · rw [← List.mem_singleton.mp hmem] at hletter
        simp at hletter
  | @code high low hhigh hlow _ =>
    have hne {d : Char} (hd : d.isAlphanum = false) : d ≠ high ∧ d ≠ low :=
      ⟨(ne_of_isAlphanum (by simp [Char.isAlphanum, hhigh]) hd).symm,
        (ne_of_isAlphanum hlow hd).symm⟩
    simp [hne (d := '\n') (by decide), hne (d := '\r') (by decide)]

/-- A quoted text holds no line break. -/
theorem oneLine_quote (text : List Char) : '\n' ∉ quote text ∧ '\r' ∉ quote text := by
  simp only [quote, List.mem_cons, List.mem_append, List.mem_flatMap, not_or, not_exists]
  exact ⟨⟨by decide, fun c hc => (escapesTo_escape c).oneLine.1 hc.2, by decide, by simp⟩,
    ⟨by decide, fun c hc => (escapesTo_escape c).oneLine.2 hc.2, by decide, by simp⟩⟩

section Keyword

variable {word : List Char}

/-- A word without a dollar sign in front of an escaped text is in front of the text. -/
theorem prefix_of_prefix_escaped {text : List Char} (hword : '$' ∉ word)
    (h : word <+: text.flatMap escape) : word <+: text := by
  induction text generalizing word with
  | nil => simpa using h
  | cons c text ih =>
    cases word with
    | nil => exact List.nil_prefix
    | cons w word =>
      rw [List.mem_cons, not_or] at hword
      have hescape := escapesTo_escape c
      rw [List.flatMap_cons] at h
      cases hescaped : escape c with
      | nil =>
        rw [hescaped] at hescape
        nomatch hescape
      | cons d tail =>
        rw [hescaped, List.cons_append, List.cons_prefix_cons] at h
        rw [hescaped] at hescape
        cases hescape with
        | plain =>
          rw [List.nil_append] at h
          rw [h.1, List.cons_prefix_cons]
          exact ⟨rfl, ih hword.2 h.2⟩
        | letter => exact absurd h.1.symm hword.1
        | code => exact absurd h.1.symm hword.1

/-- An escaped text has a keyword only inside of longer words if the text does not have it,
provided that no escape ends in the first letter of the keyword. -/
theorem isInnerAfter_escaped {text : List Char} {first : Char} (previous : Option Char)
    (hfirst : first.isAlpha = true) (hletter : first ∉ ['N', 'R', 'T', 'P'])
    (hword : '$' ∉ first :: word) (h : ¬first :: word <:+: text) :
    IsInnerAfter previous (first :: word) (text.flatMap escape) := by
  have hnot {c : Char} {rest : List Char} (hc : c ≠ first) : ¬first :: word <+: c :: rest :=
    fun hstarts => hc (List.cons_prefix_cons.mp hstarts).1.symm
  have hdollar : '$' ≠ first := fun heq => hword (heq ▸ List.mem_cons_self)
  induction text generalizing previous with
  | nil => exact isInnerAfter_nil previous (by simp)
  | cons c text ih =>
    have htext (previous : Option Char) := ih previous fun hoccurs =>
      h (hoccurs.trans (List.suffix_cons c text).isInfix)
    have hfront : ¬first :: word <+: (c :: text).flatMap escape := fun hstarts =>
      h (prefix_of_prefix_escaped hword hstarts).isInfix
    have hescape := escapesTo_escape c
    rw [List.flatMap_cons] at hfront ⊢
    generalize escape c = escaped at hescape hfront ⊢
    cases hescape with
    | plain => exact .cons (fun hstarts => absurd hstarts hfront) (htext _)
    | @letter d hd _ =>
      have hne : d ≠ first := by
        rintro rfl
        simp only [List.mem_cons, List.not_mem_nil, or_false] at hd hletter
        rcases hd with rfl | rfl | hd
        · exact absurd hfirst (by decide)
        · exact absurd hfirst (by decide)
        · exact hletter hd
      exact .cons (fun hstarts => absurd hstarts (hnot hdollar))
        (.cons (fun hstarts => absurd hstarts (hnot hne)) (htext _))
    | @code high low hhigh _ _ =>
      have hne : high ≠ first := by
        rintro rfl
        have := isDigit_iff.mp hhigh
        have := isAlpha_iff.mp hfirst
        omega
      have hinside : (some high).any isWordChar = true := by
        have := isDigit_iff.mp hhigh
        simp only [Option.any_some, isWordChar]
        rw [if_pos (by omega)]
        simp [Char.isAlphanum, hhigh]
      exact .cons (fun hstarts => absurd hstarts (hnot hdollar))
        (.cons (fun hstarts => absurd hstarts (hnot hne)) (.cons (fun _ => hinside) (htext _)))

end Keyword

end PlcTypes.StructuredText
