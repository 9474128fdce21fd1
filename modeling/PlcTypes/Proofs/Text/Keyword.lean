import PlcTypes.Proofs.Text.Occurrence
import PlcTypes.Proofs.Text.Search
import PlcTypes.Proofs.Text.Space
import PlcTypes.Text.Word

/-!
# Keywords inside other text

A keyword is recognised only where a word starts. A text in which every occurrence of a keyword
continues a longer word is therefore passed over by a search for the keyword, and joining such
texts by separators gives such a text again.
-/

namespace PlcTypes.Text

/-- Every occurrence of the word in the text continues a longer word. -/
def IsInner (word text : List Char) : Prop :=
  ∀ before after, text = before ++ (word ++ after) → before.getLast?.any isWordChar = true

variable {word left right text : List Char} {c : Char}

/-- The same of a text behind another character. -/
def IsInnerAfter (previous : Option Char) (word text : List Char) : Prop :=
  ∀ before after, text = before ++ (word ++ after) → (lastOr previous before).any isWordChar = true

/-- Nothing stands in front of a whole text. -/
theorem isInner_iff : IsInner word text ↔ IsInnerAfter none word text := by
  simp only [IsInner, IsInnerAfter, lastOr, Option.or_none]

/-- A text without characters has a word nowhere. -/
theorem isInnerAfter_nil (previous : Option Char) (hword : word ≠ []) :
    IsInnerAfter previous word [] := by
  intro before after heq
  simp [hword] at heq

/-- The word is looked for at the front and behind the first character. -/
theorem IsInnerAfter.cons {previous : Option Char}
    (hfront : word <+: c :: text → previous.any isWordChar = true)
    (htext : IsInnerAfter (some c) word text) : IsInnerAfter previous word (c :: text) := by
  intro before after heq
  cases before with
  | nil => exact hfront ⟨after, heq.symm⟩
  | cons d before =>
    simp only [List.cons_append, List.cons.injEq] at heq
    obtain ⟨rfl, heq⟩ := heq
    rw [lastOr_cons]
    exact htext before after heq

/-- A text in which the word does not occur has it only inside of longer words. -/
theorem isInner_of_not_occurs (h : ¬word <:+: text) : IsInner word text := by
  intro before after heq
  exact absurd ⟨before, after, by rw [heq, List.append_assoc]⟩ h

/-- A text that lacks a character of the word has it only inside of longer words. -/
theorem isInner_of_notMem (hword : c ∈ word) (htext : c ∉ text) : IsInner word text :=
  isInner_of_not_occurs (not_infix_of_notMem hword htext)

/-- Texts joined by a separator have the word only inside of longer words if both of them do. -/
theorem IsInner.append_cons (hleft : IsInner word left) (hright : IsInner word right)
    (hc : c ∉ word) : IsInner word (left ++ c :: right) := by
  intro before after heq
  rcases occurrence_beside_separator hc heq with ⟨gap, hsplit, -⟩ | ⟨gap, hsplit, rfl⟩
  · exact hleft before gap hsplit
  · have hgap := hright gap after hsplit
    cases gap with
    | nil => simp at hgap
    | cons d gap =>
      rw [List.append_cons, List.getLast?_append_of_ne_nil _ (by simp)]
      exact hgap

/-- A separator in front makes no difference. -/
theorem IsInner.cons (hright : IsInner word right) (hword : word ≠ []) (hc : c ∉ word) :
    IsInner word (c :: right) :=
  (isInner_of_not_occurs (by simpa using hword) : IsInner word []).append_cons hright hc

/-- A text behind that lacks the last character of the word makes no difference. -/
theorem IsInner.append_of_last_notMem (hleft : IsInner word left) (hword : word ≠ [])
    (hlast : word.getLast hword ∉ right) : IsInner word (left ++ right) := by
  intro before after heq
  obtain ⟨gap, hsplit⟩ := occurrence_of_last_notMem hword hlast heq
  exact hleft before gap hsplit

/-- A character in front with which the word does not start makes no difference. -/
theorem IsInner.cons_of_head_ne (hright : IsInner word right) (hc : ∀ d ∈ word.head?, d ≠ c)
    (hword : word ≠ []) : IsInner word (c :: right) := by
  intro before after heq
  cases before with
  | nil =>
    obtain ⟨d, tail, rfl⟩ := List.exists_cons_of_ne_nil hword
    exact absurd (List.cons.inj heq).1.symm (hc d rfl)
  | cons d before =>
    simp only [List.cons_append, List.cons.injEq] at heq
    obtain ⟨rfl, heq⟩ := heq
    have hbefore := hright before after heq
    cases hlast : before.getLast? with
    | none => simp [hlast] at hbefore
    | some e =>
      rw [List.getLast?_cons, hlast]
      rwa [hlast] at hbefore

/-- A keyword is recognised where it starts a text that continues no word. -/
theorem keywordAfter?_eq_some_iff {previous : Option Char} {rest : List Char} :
    keywordAfter? previous word text = some rest ↔
      previous.any isWordChar = false ∧ text = word ++ rest := by
  rw [keywordAfter?]
  split
  · simp [*]
  · simp [*, after?_eq_some_iff]

/-- At no place in such a text the keyword is recognised, whatever follows a separator. -/
theorem keywordAfter?_eq_none_of_isInner {before after rest : List Char} {previous : Option Char}
    {d : Char} (hinner : IsInner word (before ++ d :: after)) (hc : c ∉ word) :
    keywordAfter? (lastOr previous before) word (d :: (after ++ c :: rest)) = none := by
  rw [keywordAfter?]
  split
  · rfl
  · rename_i houtside
    rw [after?_eq_none_iff]
    intro hstarts
    rw [← List.cons_append] at hstarts
    obtain ⟨gap, hgap⟩ := prefix_of_prefix_append_cons hc hstarts
    have hlast := hinner before gap (by rw [hgap])
    apply houtside
    cases hb : before.getLast? with
    | none => simp [hb] at hlast
    | some e => simpa [lastOr, hb] using hlast

/-- A search for any of some keywords passes over a text that has them only inside of longer words,
up to and including a separator. -/
theorem find?_append_of_forall_isInner {α : Type} (isKeyword : List Char → Prop)
    {recognise : Option Char → List Char → Option (α × List Char)} {start : List Char}
    (rest : List Char) (hrecognise : ∀ previous text,
      (∀ word, isKeyword word → keywordAfter? previous word text = none) →
        recognise previous text = none)
    (hstart : ∀ word, isKeyword word → IsInner word start)
    (hword : ∀ word, isKeyword word → word ≠ [] ∧ c ∉ word) :
    find? recognise none (start ++ c :: rest) =
      (find? recognise (some c) rest).map
        fun hit => { hit with before := start ++ c :: hit.before } := by
  apply find?_append_cons_of_reject
  · intro before d after hsplit
    refine hrecognise _ _ fun word hkeyword => ?_
    exact keywordAfter?_eq_none_of_isInner (hsplit ▸ hstart word hkeyword) (hword word hkeyword).2
  · refine hrecognise _ _ fun word hkeyword => ?_
    obtain ⟨hne, hc⟩ := hword word hkeyword
    rw [keywordAfter?]
    split
    · rfl
    · exact after?_eq_none_of_notMem rest hne hc

/-- A search for a keyword passes over a text that has it only inside of longer words, up to and
including a separator. -/
theorem find?_append_of_isInner {α : Type}
    {recognise : Option Char → List Char → Option (α × List Char)} {start : List Char}
    (rest : List Char) (hrecognise : ∀ previous text,
      keywordAfter? previous word text = none → recognise previous text = none)
    (hstart : IsInner word start) (hword : word ≠ []) (hc : c ∉ word) :
    find? recognise none (start ++ c :: rest) =
      (find? recognise (some c) rest).map
        fun hit => { hit with before := start ++ c :: hit.before } := by
  refine find?_append_of_forall_isInner (· = word) rest ?_ ?_ ?_
  · exact fun previous text hnone => hrecognise previous text (hnone word rfl)
  · rintro _ rfl
    exact hstart
  · rintro _ rfl
    exact ⟨hword, hc⟩

section StandsAlone

/-- Somewhere in the text the word stands with no character of a word beside it. -/
def StandsAlone (word text : List Char) : Prop :=
  ∃ before after, text = before ++ (word ++ after) ∧ before.getLast?.any isWordChar = false ∧
    startsOutsideWord after = true

/-- Whether a word stands alone is decided place by place. -/
theorem standsAlone_iff : StandsAlone word text ↔ ∃ n ∈ List.range (text.length + 1),
    (text.take n).getLast?.any isWordChar = false ∧
      (after? word (text.drop n)).any startsOutsideWord = true := by
  constructor
  · rintro ⟨before, after, rfl, hbefore, hafter⟩
    refine ⟨before.length, ?_, ?_, ?_⟩
    · rw [List.mem_range, List.length_append]
      omega
    · rwa [List.take_left]
    · rwa [List.drop_left, after?_append]
  · rintro ⟨n, -, hbefore, hfound⟩
    obtain ⟨after, hafter, houtside⟩ := (Option.any_eq_true _ _).mp hfound
    refine ⟨text.take n, after, ?_, hbefore, houtside⟩
    rw [← after?_eq_some_iff.mp hafter, List.take_append_drop]

instance : Decidable (StandsAlone word text) := decidable_of_iff _ standsAlone_iff.symm

/-- A word that stands alone does not continue another one. -/
theorem IsInner.not_standsAlone (h : IsInner word text) : ¬StandsAlone word text := by
  rintro ⟨before, after, hsplit, hbefore, -⟩
  rw [h before after hsplit] at hbefore
  exact absurd hbefore (by decide)

/-- A word that stands alone occurs. -/
theorem not_standsAlone_of_not_occurs (h : ¬word <:+: text) : ¬StandsAlone word text :=
  (isInner_of_not_occurs h).not_standsAlone

/-- A word that stands alone in texts joined by a separator stands alone in one of them. -/
theorem StandsAlone.of_append_cons (h : StandsAlone word (left ++ c :: right)) (hc : c ∉ word) :
    StandsAlone word left ∨ StandsAlone word right := by
  obtain ⟨before, after, hsplit, hbefore, hafter⟩ := h
  rcases occurrence_beside_separator hc hsplit with ⟨gap, hleft, rfl⟩ | ⟨gap, hright, rfl⟩
  · refine Or.inl ⟨before, gap, hleft, hbefore, ?_⟩
    cases gap with
    | nil => rfl
    | cons d gap => exact hafter
  · refine Or.inr ⟨gap, after, hright, ?_, hafter⟩
    cases gap with
    | nil => rfl
    | cons d gap =>
      rw [List.append_cons, List.getLast?_append_of_ne_nil _ (List.cons_ne_nil d gap)] at hbefore
      exact hbefore

/-- A word that stands alone in neither of two texts does not stand alone in them joined by a
separator. -/
theorem not_standsAlone_append_cons (hleft : ¬StandsAlone word left) (hright : ¬StandsAlone word right)
    (hc : c ∉ word) : ¬StandsAlone word (left ++ c :: right) := by
  intro h
  exact (h.of_append_cons hc).elim hleft hright

/-- Separators in front make no difference. -/
theorem not_standsAlone_append_separators {start : List Char} (hright : ¬StandsAlone word right)
    (hword : word ≠ []) (hstart : ∀ c ∈ start, c ∉ word) : ¬StandsAlone word (start ++ right) := by
  have hnil : ¬StandsAlone word [] := not_standsAlone_of_not_occurs (by simpa using hword)
  induction start with
  | nil => exact hright
  | cons c start ih =>
    have hrest := ih fun d hd => hstart d (List.mem_cons_of_mem c hd)
    exact not_standsAlone_append_cons hnil hrest (hstart c List.mem_cons_self)

/-- White space belongs to no word. -/
theorem isWordChar_of_isSpace (h : isSpace c = true) : isWordChar c = false := by
  have hspaces : ∀ n ∈ [9, 10, 11, 12, 13, 0x20, 0x85, 0xA0, 0x1680, 0x2000, 0x2001, 0x2002, 0x2003,
      0x2004, 0x2005, 0x2006, 0x2007, 0x2008, 0x2009, 0x200A, 0x2028, 0x2029, 0x202F, 0x205F, 0x3000],
      isWordChar (Char.ofNat n) = false := by decide +kernel
  have hc := hspaces c.toNat ?_
  · rwa [Char.ofNat_toNat] at hc
  · simp only [isSpace, Bool.or_eq_true, Bool.and_eq_true, decide_eq_true_eq, beq_iff_eq] at h
    simp only [List.mem_cons, List.not_mem_nil, or_false]
    omega

/-- A word that stands alone in a run of the text stands alone in the text. -/
theorem StandsAlone.of_isRun {part : List Char} (h : StandsAlone word part) (hrun : IsRun part text) :
    StandsAlone word text := by
  obtain ⟨before, after, rfl, hbefore, hafter⟩ := h
  obtain ⟨start, rest, rfl, hstart, hrest⟩ := hrun
  refine ⟨start ++ before, after ++ rest, by simp only [List.append_assoc], ?_, ?_⟩
  · cases before with
    | nil =>
      rw [List.append_nil]
      cases hlast : start.getLast? with
      | none => rfl
      | some d => exact isWordChar_of_isSpace (hstart d hlast)
    | cons d before =>
      rwa [List.getLast?_append_of_ne_nil _ (List.cons_ne_nil d before)]
  · cases after with
    | nil =>
      rw [List.nil_append]
      cases rest with
      | nil => rfl
      | cons d rest => rw [startsOutsideWord, isWordChar_of_isSpace (hrest d rfl)]; rfl
    | cons d after => exact hafter

/-- A word that stands alone in words joined by spaces stands alone in one of them. -/
theorem StandsAlone.of_joined {ws : List (List Char)} (hword : word ≠ []) (hspace : ' ' ∉ word)
    (h : StandsAlone word ([' '].intercalate ws)) : ∃ part ∈ ws, StandsAlone word part := by
  induction ws with
  | nil => exact absurd h (not_standsAlone_of_not_occurs (by simpa [List.intercalate_nil] using hword))
  | cons part others ih =>
    cases others with
    | nil =>
      rw [List.intercalate_singleton] at h
      exact ⟨part, List.mem_cons_self, h⟩
    | cons other others =>
      rw [List.intercalate_cons_cons, List.append_assoc, List.singleton_append] at h
      rcases h.of_append_cons hspace with h | h
      · exact ⟨part, List.mem_cons_self, h⟩
      · obtain ⟨found, hmem, halone⟩ := ih h
        exact ⟨found, List.mem_cons_of_mem part hmem, halone⟩

/-- Folding a text onto one line leaves no word standing alone that did not before. -/
theorem StandsAlone.of_foldLine (hword : word ≠ []) (hspace : ' ' ∉ word)
    (h : StandsAlone word (foldLine text)) : StandsAlone word text := by
  obtain ⟨part, hmem, halone⟩ := h.of_joined hword hspace
  exact halone.of_isRun (words_spec hmem).2

/-- A search for a word that stands alone passes over a text in which it does not, up to and including
a separator. -/
theorem find?_append_of_not_standsAlone {α : Type}
    {recognise : Option Char → List Char → Option (α × List Char)} {start : List Char}
    (rest : List Char) (hrecognise : ∀ previous text hit, recognise previous text = some hit →
      previous.any isWordChar = false ∧ ∃ after, text = word ++ after ∧ startsOutsideWord after = true)
    (hstart : ¬StandsAlone word start) (hword : word ≠ []) (hc : c ∉ word) :
    find? recognise none (start ++ c :: rest) =
      (find? recognise (some c) rest).map
        fun hit => { hit with before := start ++ c :: hit.before } := by
  apply find?_append_cons_of_reject
  · intro before d after hsplit
    apply Option.eq_none_iff_forall_ne_some.mpr
    intro hit hread
    obtain ⟨hbefore, tail, hstarts, htail⟩ := hrecognise _ _ _ hread
    have hprefix : word <+: (d :: after) ++ c :: rest := ⟨tail, by rw [List.cons_append, hstarts]⟩
    obtain ⟨gap, hgap⟩ := prefix_of_prefix_append_cons hc hprefix
    refine hstart ⟨before, gap, by rw [hsplit, hgap], by simpa [lastOr] using hbefore, ?_⟩
    have hrest : tail = gap ++ c :: rest := by
      rw [← List.cons_append, ← hgap, List.append_assoc] at hstarts
      exact (List.append_cancel_left hstarts).symm
    cases gap with
    | nil => rfl
    | cons e gap =>
      rw [hrest] at htail
      exact htail
  · apply Option.eq_none_iff_forall_ne_some.mpr
    intro hit hread
    obtain ⟨-, after, hsplit, -⟩ := hrecognise _ _ _ hread
    obtain ⟨w, tail, rfl⟩ := List.exists_cons_of_ne_nil hword
    exact hc ((List.cons.inj hsplit).1 ▸ List.mem_cons_self)

end StandsAlone

end PlcTypes.Text
