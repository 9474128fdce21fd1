import Mathlib.Data.List.Infix
import PlcTypes.Text.Search

/-!
# Occurrences of words

A word occurs in a text if it is an infix of it. A character that the word does not contain
separates: every occurrence lies wholly on one side of it. So a text put together from parts
with separators between them contains a word only where one of the parts does.
-/

namespace PlcTypes.Text

/-- What holds of all characters of a word is decided character by character, and not by going
through all characters there are. -/
instance (priority := 1100) decidableForallMem (p : Char → Prop) [DecidablePred p] (word : List Char) :
    Decidable (∀ c ∈ word, p c) :=
  List.decidableBAll p word

variable {word left right before after : List Char} {c : Char}

/-- An occurrence lies on one side of a character that the word does not contain. -/
theorem occurrence_beside_separator (hc : c ∉ word)
    (h : left ++ c :: right = before ++ (word ++ after)) :
    (∃ gap, left = before ++ (word ++ gap) ∧ after = gap ++ c :: right) ∨
      ∃ gap, right = gap ++ (word ++ after) ∧ before = left ++ c :: gap := by
  rcases List.append_eq_append_iff.mp h with ⟨gap, hbefore, hright⟩ | ⟨gap, hleft, hword⟩
  · -- the occurrence starts at the separator or behind it
    cases gap with
    | nil =>
      rw [List.nil_append] at hright
      cases word with
      | nil => exact Or.inl ⟨[], by simpa using hbefore.symm, hright.symm⟩
      | cons d word =>
        simp only [List.cons_append, List.cons.injEq] at hright
        exact absurd (hright.1 ▸ List.mem_cons_self) hc
    | cons d gap =>
      simp only [List.cons_append, List.cons.injEq] at hright
      obtain ⟨rfl, hright⟩ := hright
      exact Or.inr ⟨gap, hright, hbefore⟩
  · rcases List.append_eq_append_iff.mp hword with ⟨gap', hgap, hsep⟩ | ⟨gap', hgap, hsep⟩
    · exact Or.inl ⟨gap', by rw [hleft, hgap], hsep⟩
    · cases gap' with
      | nil => exact Or.inl ⟨[], by rw [hleft, hgap]; simp, by simpa using hsep.symm⟩
      | cons d gap' =>
        simp only [List.cons_append, List.cons.injEq] at hsep
        refine absurd ?_ hc
        rw [hgap, hsep.1]
        simp

/-- A word that avoids a separator occurs in a joined text only on one of its sides. -/
theorem infix_append_cons_iff (hc : c ∉ word) :
    word <:+: left ++ c :: right ↔ word <:+: left ∨ word <:+: right := by
  constructor
  · rintro ⟨before, after, h⟩
    rw [List.append_assoc] at h
    rcases occurrence_beside_separator hc h.symm with ⟨gap, rfl, -⟩ | ⟨gap, rfl, -⟩
    · exact Or.inl (List.infix_append' _ _ _)
    · exact Or.inr (List.infix_append' _ _ _)
  · intro h
    rcases h with h | h
    · exact List.infix_append_of_infix_left h
    · exact List.infix_append_of_infix_right (h.trans (List.suffix_cons c right).isInfix)

/-- A separator in front brings in no occurrence. -/
theorem infix_cons_iff_of_notMem (hne : word ≠ []) (hc : c ∉ word) :
    word <:+: c :: right ↔ word <:+: right := by
  rw [← List.nil_append (c :: right), infix_append_cons_iff hc]
  simp [hne]

/-- A word occurs in none of three parts with separators between them, so it does not occur in what
is put together from them. -/
theorem not_occurs_between {middle : List Char} {d : Char} (hleft : ¬word <:+: left)
    (hmiddle : ¬word <:+: middle) (hright : ¬word <:+: right) (hc : c ∉ word) (hd : d ∉ word) :
    ¬word <:+: left ++ c :: (middle ++ d :: right) := by
  rw [infix_append_cons_iff hc, infix_append_cons_iff hd]
  intro hoccurs
  rcases hoccurs with hoccurs | hoccurs | hoccurs
  · exact hleft hoccurs
  · exact hmiddle hoccurs
  · exact hright hoccurs

/-- A word that starts a text does not reach a separator in it. -/
theorem prefix_of_prefix_append_cons {text : List Char} (hc : c ∉ word)
    (h : word <+: text ++ c :: right) : word <+: text := by
  rcases Nat.le_total word.length text.length with hshort | hlong
  · exact List.prefix_of_prefix_length_le h (List.prefix_append _ _) hshort
  · obtain ⟨gap, rfl⟩ := List.prefix_of_prefix_length_le (List.prefix_append _ _) h hlong
    rw [List.prefix_append_right_inj] at h
    cases gap with
    | nil => rw [List.append_nil]
    | cons d gap =>
      have hsame : d = c := (List.cons_prefix_cons.mp h).1
      exact absurd (hsame ▸ List.mem_append_right text List.mem_cons_self) hc

/-- An occurrence does not reach into a part of the text that lacks the last character of the word. -/
theorem occurrence_of_last_notMem (hne : word ≠ []) (hlast : word.getLast hne ∉ right)
    (h : left ++ right = before ++ (word ++ after)) : ∃ gap, left = before ++ (word ++ gap) := by
  rw [← List.append_assoc] at h
  rcases List.append_eq_append_iff.mp h with ⟨gap, hword, hright⟩ | ⟨gap, hleft, -⟩
  · cases hgap : gap.getLast? with
    | none =>
      rw [List.getLast?_eq_none_iff.mp hgap, List.append_nil] at hword
      exact ⟨[], by rw [List.append_nil, hword]⟩
    | some c =>
      refine absurd ?_ hlast
      have hsame := congrArg List.getLast? hword
      rw [List.getLast?_append_of_ne_nil _ hne, List.getLast?_eq_some_getLast hne,
        List.getLast?_append, hgap, Option.some_or, Option.some.injEq] at hsame
      rw [hsame, hright]
      exact List.mem_append_left _ (List.mem_of_getLast? hgap)
  · exact ⟨gap, by rw [hleft, List.append_assoc]⟩

/-- A word does not reach into a part of the text that lacks its last character. -/
theorem occurs_of_occurs_append (hne : word ≠ []) (hlast : word.getLast hne ∉ right)
    (h : word <:+: left ++ right) : word <:+: left := by
  obtain ⟨before, after, hsplit⟩ := h
  rw [List.append_assoc] at hsplit
  obtain ⟨gap, hleft⟩ := occurrence_of_last_notMem hne hlast hsplit.symm
  exact ⟨before, gap, by rw [hleft, List.append_assoc]⟩

/-- A word does not occur in a text that lacks one of its characters. -/
theorem not_infix_of_notMem {text : List Char} (hword : c ∈ word) (htext : c ∉ text) :
    ¬word <:+: text :=
  fun h => htext (h.subset hword)

end PlcTypes.Text
