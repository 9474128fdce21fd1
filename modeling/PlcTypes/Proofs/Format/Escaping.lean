import PlcTypes.Proofs.Format.Markup
import PlcTypes.Proofs.Text.PatternScan
import PlcTypes.Proofs.Text.PatternSteps
import PlcTypes.Proofs.Text.Replacement

/-!
# Escaping as replacement

An attribute value is escaped by replacing one character after the other in the whole text, the ampersand
first, and read by replacing one entity after the other, that of the ampersand last. In this order no
replacement meets what another one has put in, so that a value is escaped character by character, and the
entities of a value are those that it has from the start. The end of a section is replaced as well, and
the sections of an element are found with a pattern whose text is as short as possible.
-/

namespace PlcTypes.Markup

open Text Pattern

variable {previous : Option Char} {text : List Char}

section Entities

/-- What is written for a character in an attribute value, in the order of the replacements. -/
def escapeRules : List (List Char × List Char) :=
  [(['&'], ['&', 'a', 'm', 'p', ';']), (['<'], ['&', 'l', 't', ';']), (['>'], ['&', 'g', 't', ';']),
    (['"'], ['&', 'q', 'u', 'o', 't', ';'])]

/-- What is read for an entity in an attribute value, in the order of the replacements. -/
def unescapeRules : List (List Char × List Char) :=
  [(['&', 'q', 'u', 'o', 't', ';'], ['"']), (['&', 'a', 'p', 'o', 's', ';'], ['\'']),
    (['&', 'l', 't', ';'], ['<']), (['&', 'g', 't', ';'], ['>']), (['&', 'a', 'm', 'p', ';'], ['&'])]

/-- A character is replaced once: none of its replacements is replaced again. -/
theorem replaceEach_escapeRules_singleton (c : Char) : replaceEach escapeRules [c] = escapeChar c := by
  simp only [replaceEach, escapeRules, List.foldl_cons, List.foldl_nil, replaceAll_singleton, escapeChar]
  split_ifs with hamp hlt hgt hquot
  · subst hamp
    decide
  · subst hlt
    decide
  · subst hgt
    decide
  · subst hquot
    decide
  · simp [hamp, hlt, hgt, hquot]

/-- Replacing the characters one after the other escapes each of them once. -/
theorem replaceEach_escapeRules (text : List Char) : replaceEach escapeRules text = escape text := by
  rw [replaceEach_of_singleton]
  · exact List.flatMap_congr fun c _ => replaceEach_escapeRules_singleton c
  · simp [escapeRules]

/-- Every entity starts with an ampersand and has no other one. -/
theorem isMarked_of_mem_unescapeRules : ∀ rule ∈ unescapeRules, IsMarked '&' rule.1 := by decide

/-- No entity is made up by replacing an earlier one. -/
theorem pairwise_isApart_unescapeRules : unescapeRules.Pairwise IsApart := by decide

/-- A character that starts no entity is kept. -/
theorem replaceEach_unescapeRules_cons {c : Char} {rest : List Char}
    (h : ∀ rule ∈ unescapeRules, ¬rule.1 <+: c :: rest) :
    replaceEach unescapeRules (c :: rest) = c :: replaceEach unescapeRules rest := by
  by_cases hc : c = '&'
  · subst hc
    exact replaceEach_cons_of_not_starts isMarked_of_mem_unescapeRules pairwise_isApart_unescapeRules rest h
  · have hmark : '&' ∉ [c] := List.mem_singleton.not.mpr (Ne.symm hc)
    exact replaceEach_append_of_notMem isMarked_of_mem_unescapeRules rest fun _ _ => hmark

/-- Replacing the entities one after the other reads each of them once. -/
theorem replaceEach_unescapeRules (text : List Char) : replaceEach unescapeRules text = unescape text := by
  have hentity (i : Fin 5) (rest : List Char) :=
    replaceEach_append_of_mem isMarked_of_mem_unescapeRules pairwise_isApart_unescapeRules
      (List.get_mem unescapeRules i) rest
  fun_induction unescape text with
  | case1 rest ih =>
    rw [← ih]
    exact hentity 0 rest
  | case2 rest ih =>
    rw [← ih]
    exact hentity 1 rest
  | case3 rest ih =>
    rw [← ih]
    exact hentity 2 rest
  | case4 rest ih =>
    rw [← ih]
    exact hentity 3 rest
  | case5 rest ih =>
    rw [← ih]
    exact hentity 4 rest
  | case6 c rest hquot hapos hlt hgt hamp ih =>
    rw [replaceEach_unescapeRules_cons, ih]
    simp only [unescapeRules, List.forall_mem_cons, List.cons_prefix_cons]
    exact ⟨fun ⟨hc, tail, htail⟩ => hquot tail hc.symm htail.symm,
      fun ⟨hc, tail, htail⟩ => hapos tail hc.symm htail.symm,
      fun ⟨hc, tail, htail⟩ => hlt tail hc.symm htail.symm,
      fun ⟨hc, tail, htail⟩ => hgt tail hc.symm htail.symm,
      fun ⟨hc, tail, htail⟩ => hamp tail hc.symm htail.symm, fun _ hmem => absurd hmem List.not_mem_nil⟩
  | case7 => exact replaceEach_nil unescapeRules

end Entities

section Sections

/-- Replacing the end of a section splits the text into sections. -/
theorem replaceAll_sectionEnd (text : List Char) :
    replaceAll sectionEnd "]]]]><![CDATA[>".toList text = splitSections text := by
  fun_induction splitSections text with
  | case1 rest ih =>
    rw [← ih]
    exact replaceAll_append rest (by decide)
  | case2 c rest hclosed ih =>
    have hstarts : ¬sectionEnd <+: c :: rest := by
      rw [sectionEnd_eq, List.cons_prefix_cons]
      rintro ⟨hc, tail, htail⟩
      exact hclosed tail hc.symm htail.symm
    rw [replaceAll_cons hstarts, ih]
  | case3 => rw [replaceAll]

/-- A character data section as a pattern: its text is as short as possible. -/
def sectionPattern : Pattern Unit :=
  seq (literal sectionStart) (seq (part () (many false (one fun _ => true))) (literal sectionEnd))

/-- The pattern names the text of the section in front of a text. -/
theorem parts?_sectionPattern : sectionPattern.parts? previous text =
    (section? text).map fun found => [((), found.1)] := by
  have hend : (literal sectionEnd : Pattern Unit).parts? =
      fun _ text => (after? sectionEnd text).map fun _ => [] := by
    funext previous text
    exact parts?_literal sectionEnd
  rw [sectionPattern, parts?_seq (hasParts_literal sectionStart), takenBefore?_literal, section?]
  cases after? sectionStart text with
  | none => rfl
  | some rest =>
    rw [Option.bind_some, Option.bind_some, parts?_seq_part rfl, hend, takenBefore?_shortest]
    simp only [Option.map_map]
    rfl

/-- The pattern ends where the section ends. -/
theorem rest_sectionPattern : (sectionPattern.first? previous text).map Match.rest =
    (section? text).map Prod.snd := by
  have hend : (literal sectionEnd : Pattern Unit).takenBefore? (fun _ rest => some rest) =
      fun _ text => (after? sectionEnd text).map fun rest => (sectionEnd, rest) := by
    funext previous text
    rw [takenBefore?_literal]
    cases after? sectionEnd text <;> rfl
  rw [map_rest_first?, sectionPattern, takenBefore?_seq, takenBefore?_literal, section?]
  cases after? sectionStart text with
  | none => rfl
  | some rest =>
    rw [Option.bind_some, Option.bind_some, takenBefore?_seq, hend, takenBefore?_part,
      takenBefore?_shortest]
    simp only [Option.map_map]
    rfl

/-- A scan for the pattern finds the texts of all sections. -/
theorem scan_sectionPattern (text : List Char) :
    sectionPattern.scan none text = (findAll section? text).map fun piece => [((), piece)] :=
  scan_eq_map_findAll (fun piece => [((), piece)]) (fun _ => rfl) advances_section?
    (fun _ _ => parts?_sectionPattern) fun _ _ => rest_sectionPattern

end Sections

/-- What is written for a text is undone when it is read. An attribute value has no character that could
end it or its element, and is read back. Character data, however often the text opens or closes a section,
is read back up to the white space around it. The values are written and read by replacing one word after
the other, the end of a section is replaced in the same way, and the sections that are read are those that
the pattern matches from left to right. -/
theorem read_undoes_write (text : List Char) :
    (unescape (escape text) = text ∧ ∀ c ∈ ['<', '>', '"'], c ∉ escape text) ∧
    elementText (characterData text) = trim text ∧
    (replaceEach escapeRules text = escape text ∧ replaceEach unescapeRules text = unescape text) ∧
    replaceAll sectionEnd "]]]]><![CDATA[>".toList text = splitSections text ∧
    sectionPattern.scan none text = (findAll section? text).map fun piece => [((), piece)] :=
  ⟨⟨unescape_escape text, fun _ hc => notMem_escape text hc⟩, elementText_characterData text,
    ⟨replaceEach_escapeRules text, replaceEach_unescapeRules text⟩, replaceAll_sectionEnd text,
    scan_sectionPattern text⟩

/-- Brackets run over into the end of a section. -/
example : elementText (characterData "]]]]>]]".toList) = "]]]]>]]".toList := by decide

end PlcTypes.Markup
