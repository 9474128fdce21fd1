import PlcTypes.Proofs.Text.Occurrence
import PlcTypes.Text.Ascii
import PlcTypes.Text.Search

/-!
# Laws of the searches

A literal is found at its first occurrence. A recogniser that rejects every place of a start of
the text finds in the whole what it finds in the rest, and a text is cut into lines part by
part. Searching for all values needs no more steps than the text has characters.
-/

namespace PlcTypes.Text

/-- A text starts with a literal if it is the literal and what follows. -/
theorem after?_eq_some_iff {word text rest : List Char} :
    after? word text = some rest ↔ text = word ++ rest := by
  induction word generalizing text with
  | nil => simp [after?]
  | cons w word ih =>
    cases text with
    | nil => simp [after?]
    | cons c text =>
      by_cases h : w = c
      · simp [after?, h, ih]
      · simp [after?, h, Ne.symm h]

/-- What follows a literal in front of a text. -/
@[simp] theorem after?_append (word rest : List Char) : after? word (word ++ rest) = some rest :=
  after?_eq_some_iff.mpr rfl

/-- A literal is not recognised where the text does not start with it. -/
theorem after?_eq_none_iff {word text : List Char} : after? word text = none ↔ ¬word <+: text := by
  rw [Option.eq_none_iff_forall_ne_some]
  constructor
  · rintro h ⟨rest, hrest⟩
    exact h rest (after?_eq_some_iff.mpr hrest.symm)
  · intro h rest hrest
    exact h ⟨rest, (after?_eq_some_iff.mp hrest).symm⟩

/-- A literal is not recognised in a text that starts with another character. -/
theorem after?_cons_of_ne {w c : Char} (word text : List Char) (h : w ≠ c) :
    after? (w :: word) (c :: text) = none := by
  rw [after?, if_neg (by simpa using h)]

/-- A literal is not recognised inside of a text in which it does not occur, whatever follows a
separator. -/
theorem after?_eq_none_of_not_occurs {word before after rest : List Char} {c d : Char}
    (h : ¬word <:+: before ++ d :: after) (hc : c ∉ word) :
    after? word (d :: (after ++ c :: rest)) = none := by
  rw [after?_eq_none_iff]
  intro hstarts
  rw [← List.cons_append] at hstarts
  have hstart := prefix_of_prefix_append_cons hc hstarts
  exact h (hstart.isInfix.trans (List.suffix_append before _).isInfix)

/-- A literal is not recognised at a character that it does not contain. -/
theorem after?_eq_none_of_notMem {word : List Char} {c : Char} (rest : List Char) (hword : word ≠ [])
    (hc : c ∉ word) : after? word (c :: rest) = none := by
  obtain ⟨w, tail, rfl⟩ := List.exists_cons_of_ne_nil hword
  exact after?_cons_of_ne tail rest fun heq => hc (heq ▸ List.mem_cons_self)

/-- A text is cut at the first occurrence of a literal. -/
theorem cut?_append {word before : List Char} (tail : List Char) (hne : word ≠ [])
    (hfirst : ¬word <:+: before ++ word.dropLast) :
    cut? word (before ++ (word ++ tail)) = some (before, tail) := by
  induction before with
  | nil =>
    obtain ⟨w, rest, rfl⟩ := List.exists_cons_of_ne_nil hne
    have hafter := after?_append (w :: rest) tail
    simp only [List.cons_append] at hafter
    simp only [List.nil_append, List.cons_append, cut?, hafter]
  | cons c rest ih =>
    have hnone : after? word (c :: (rest ++ (word ++ tail))) = none := by
      rw [after?_eq_none_iff]
      intro hstarts
      apply hfirst
      refine List.IsPrefix.isInfix ?_
      have hlast : word ++ tail = word.dropLast ++ (word.getLast hne :: tail) := by
        rw [← List.singleton_append, ← List.append_assoc, List.dropLast_concat_getLast]
      rw [hlast, ← List.append_assoc, ← List.cons_append] at hstarts
      refine List.prefix_of_prefix_length_le hstarts (List.prefix_append _ _) ?_
      have := List.length_pos_iff.mpr hne
      simp only [List.cons_append, List.length_cons, List.length_append, List.length_dropLast]
      omega
    rw [List.cons_append, cut?, hnone, ih fun h => hfirst (h.trans (List.suffix_cons c _).isInfix)]
    rfl

/-- A text is cut at the first occurrence of a character. -/
theorem cut?_singleton {mark : Char} {before : List Char} (tail : List Char)
    (hmark : mark ∉ before) : cut? [mark] (before ++ mark :: tail) = some (before, tail) := by
  have hfirst : ¬[mark] <:+: before ++ [mark].dropLast := fun h =>
    hmark (by simpa using h.subset List.mem_cons_self)
  exact cut?_append tail (by simp) hfirst

/-- A text without the literal is not cut. -/
theorem cut?_eq_none {word text : List Char} (h : ¬word <:+: text) : cut? word text = none := by
  induction text with
  | nil =>
    rw [cut?, if_neg]
    rintro rfl
    exact h List.nil_infix
  | cons c rest ih =>
    rw [cut?, after?_eq_none_iff.mpr fun hstarts => h hstarts.isInfix]
    simp [ih fun hoccurs => h (hoccurs.trans (List.suffix_cons c rest).isInfix)]

/-- A text that is not cut does not have the literal. -/
theorem not_occurs_of_cut?_eq_none {word text : List Char} (h : cut? word text = none) :
    ¬word <:+: text := by
  induction text with
  | nil =>
    rw [List.infix_nil]
    rintro rfl
    simp [cut?] at h
  | cons c rest ih =>
    rw [cut?] at h
    split at h
    · simp at h
    · rename_i hafter
      rw [List.infix_cons_iff, not_or]
      exact ⟨after?_eq_none_iff.mp hafter, ih (Option.map_eq_none_iff.mp h)⟩

/-- The parts of a cut text make up the text. -/
theorem eq_of_cut? {word text before tail : List Char} (h : cut? word text = some (before, tail)) :
    text = before ++ (word ++ tail) := by
  induction text generalizing before tail with
  | nil =>
    by_cases hword : word = []
    · simp only [cut?, hword, if_true, Option.some.injEq, Prod.mk.injEq] at h
      simp [← h.1, ← h.2, hword]
    · simp [cut?, hword] at h
  | cons c rest ih =>
    rw [cut?] at h
    split at h
    · rename_i found hafter
      simp only [Option.some.injEq, Prod.mk.injEq] at h
      rw [after?_eq_some_iff.mp hafter, ← h.1, ← h.2, List.nil_append]
    · obtain ⟨⟨before', tail'⟩, hcut, heq⟩ := Option.map_eq_some_iff.mp h
      simp only [Prod.mk.injEq] at heq
      rw [← heq.1, ← heq.2, List.cons_append, ← ih hcut]

/-- A text is cut at the first occurrence of a literal, so there is none before. -/
theorem not_occurs_of_cut? {word text before tail : List Char} (hne : word ≠ [])
    (h : cut? word text = some (before, tail)) : ¬word <:+: before := by
  induction text generalizing before tail with
  | nil => simp [cut?, hne] at h
  | cons c rest ih =>
    rw [cut?] at h
    split at h
    · simp only [Option.some.injEq, Prod.mk.injEq] at h
      rw [← h.1, List.infix_nil]
      exact hne
    · rename_i hafter
      obtain ⟨⟨first, last⟩, hcut, heq⟩ := Option.map_eq_some_iff.mp h
      obtain ⟨rfl, rfl⟩ := Prod.mk.inj heq
      rw [List.infix_cons_iff, not_or]
      refine ⟨fun hstarts => after?_eq_none_iff.mp hafter (hstarts.trans ?_), ih hcut⟩
      rw [eq_of_cut? hcut]
      exact List.cons_prefix_cons.mpr ⟨rfl, List.prefix_append _ _⟩

/-- A text is cut at the first occurrence of a character, so there is none before. -/
theorem notMem_of_cut? {mark : Char} {text before tail : List Char}
    (h : cut? [mark] text = some (before, tail)) : mark ∉ before := by
  intro hmem
  apply not_occurs_of_cut? (List.cons_ne_nil mark []) h
  obtain ⟨first, last, hsplit⟩ := List.append_of_mem hmem
  exact ⟨first, last, by rw [hsplit, List.append_assoc, List.singleton_append]⟩

/-- A text without a character is not cut at it. -/
theorem cutLast?_eq_none {mark : Char} {text : List Char} (h : mark ∉ text) :
    cutLast? mark text = none := by
  induction text with
  | nil => rfl
  | cons c rest ih =>
    rw [List.mem_cons, not_or] at h
    rw [cutLast?, ih h.2]
    exact if_neg (Ne.symm h.1)

/-- A text is cut at the last occurrence of a character. -/
theorem cutLast?_append {mark : Char} (before : List Char) {tail : List Char} (h : mark ∉ tail) :
    cutLast? mark (before ++ mark :: tail) = some (before, tail) := by
  induction before with
  | nil =>
    rw [List.nil_append, cutLast?, cutLast?_eq_none h]
    exact if_pos rfl
  | cons c before ih => rw [List.cons_append, cutLast?, ih]

/-- The parts of a text cut at a character make up the text. -/
theorem eq_of_cutLast? {mark : Char} {text before tail : List Char}
    (h : cutLast? mark text = some (before, tail)) : text = before ++ mark :: tail := by
  induction text generalizing before tail with
  | nil => simp [cutLast?] at h
  | cons c rest ih =>
    rw [cutLast?] at h
    split at h
    · rename_i first last hcut
      simp only [Option.some.injEq, Prod.mk.injEq] at h
      rw [← h.1, ← h.2, List.cons_append, ← ih hcut]
    · split at h
      · rename_i hmark
        simp only [Option.some.injEq, Prod.mk.injEq] at h
        rw [← h.1, ← h.2, hmark, List.nil_append]
      · simp at h

/-- A run of characters reaches up to one that does not belong to it. -/
theorem takeWhile_append_cons {p : Char → Bool} {run : List Char} {stop : Char} (rest : List Char)
    (hrun : ∀ c ∈ run, p c = true) (hstop : p stop = false) :
    (run ++ stop :: rest).takeWhile p = run := by
  rw [List.takeWhile_append_of_pos hrun, List.takeWhile_cons_of_neg (by simp [hstop]),
    List.append_nil]

/-- Dropping a run stops at the first character that does not belong to it. -/
theorem dropWhile_append_cons {p : Char → Bool} {run : List Char} {stop : Char} (rest : List Char)
    (hrun : ∀ c ∈ run, p c = true) (hstop : p stop = false) :
    (run ++ stop :: rest).dropWhile p = stop :: rest := by
  rw [List.dropWhile_append_of_pos hrun, List.dropWhile_cons_of_neg (by simp [hstop])]

/-- A run and what follows it only depend on which characters of the text belong to it. -/
theorem takeWhile_congr {p q : Char → Bool} {text : List Char} (h : ∀ c ∈ text, p c = q c) :
    text.takeWhile p = text.takeWhile q ∧ text.dropWhile p = text.dropWhile q := by
  induction text with
  | nil => exact ⟨rfl, rfl⟩
  | cons c rest ih =>
    rw [List.forall_mem_cons] at h
    obtain ⟨htake, hdrop⟩ := ih h.2
    simp only [List.takeWhile_cons, List.dropWhile_cons, h.1, htake, hdrop, true_and]

/-- A word in some letter case in front of a text is recognised. -/
theorem afterIgnoringCase?_append {word found : List Char} (rest : List Char)
    (h : sameIgnoringCase word found = true) :
    afterIgnoringCase? word (found ++ rest) = some rest := by
  induction word generalizing found with
  | nil =>
    cases found with
    | nil => rfl
    | cons c found => simp [sameIgnoringCase] at h
  | cons w word ih =>
    cases found with
    | nil => simp [sameIgnoringCase] at h
    | cons c found =>
      simp only [sameIgnoringCase, List.map_cons, beq_iff_eq, List.cons.injEq] at h
      rw [List.cons_append, afterIgnoringCase?, if_pos (by simpa using h.1),
        ih (by simpa [sameIgnoringCase] using h.2)]

/-- What follows a recognised word is the end of the text. -/
theorem afterIgnoringCase?_suffix {word text rest : List Char}
    (h : afterIgnoringCase? word text = some rest) : rest <:+ text := by
  induction word generalizing text with
  | nil =>
    simp only [afterIgnoringCase?, Option.some.injEq] at h
    exact h ▸ List.suffix_refl text
  | cons w word ih =>
    cases text with
    | nil => simp [afterIgnoringCase?] at h
    | cons c text =>
      rw [afterIgnoringCase?] at h
      split at h
      · exact (ih h).trans (List.suffix_cons c text)
      · simp at h

section Find

variable {α : Type} {recognise : Option Char → List Char → Option (α × List Char)}

/-- A recogniser that accepts at once is found at once. -/
theorem find?_of_accept {previous : Option Char} {text rest : List Char} {found : α}
    (h : recognise previous text = some (found, rest)) :
    find? recognise previous text = some ⟨[], found, rest⟩ := by
  cases text with
  | nil => simp [find?, h]
  | cons c text => simp [find?, h]

/-- The character before the end of a part of the text. -/
def lastOr (previous : Option Char) (part : List Char) : Option Char := part.getLast?.or previous

/-- The last character of a part is not affected by what stands before the part. -/
theorem lastOr_cons (previous : Option Char) (c : Char) (part : List Char) :
    lastOr previous (c :: part) = lastOr (some c) part := by
  cases part with
  | nil => rfl
  | cons d part =>
    rw [lastOr, lastOr, List.getLast?_cons_cons, List.getLast?_eq_some_getLast (by simp)]
    rfl

/-- What is found is what the recogniser accepts behind the text before it. -/
theorem find?_spec {previous : Option Char} {text : List Char} {hit : Hit α}
    (h : find? recognise previous text = some hit) :
    ∃ tail, text = hit.before ++ tail ∧
      recognise (lastOr previous hit.before) tail = some (hit.found, hit.rest) := by
  induction text generalizing previous hit with
  | nil =>
    rw [find?] at h
    obtain ⟨⟨found, rest⟩, hfound, rfl⟩ := Option.map_eq_some_iff.mp h
    exact ⟨[], rfl, by simpa [lastOr] using hfound⟩
  | cons c text ih =>
    rw [find?] at h
    split at h
    · rename_i found rest hfound
      rw [← Option.some.inj h]
      exact ⟨c :: text, rfl, by simpa [lastOr] using hfound⟩
    · obtain ⟨later, hlater, rfl⟩ := Option.map_eq_some_iff.mp h
      obtain ⟨tail, rfl, htail⟩ := ih hlater
      exact ⟨tail, rfl, by rwa [lastOr_cons]⟩

/-- A start of the text at none of whose places the recogniser accepts is passed over. -/
theorem find?_append_of_reject {previous : Option Char} {start rest : List Char}
    (h : ∀ before c after, start = before ++ c :: after →
      recognise (lastOr previous before) (c :: (after ++ rest)) = none) :
    find? recognise previous (start ++ rest) =
      (find? recognise (lastOr previous start) rest).map
        fun hit => { hit with before := start ++ hit.before } := by
  induction start generalizing previous with
  | nil => simp [lastOr]
  | cons c start ih =>
    have hhere : recognise previous (c :: (start ++ rest)) = none := by
      simpa [lastOr] using h [] c start rfl
    rw [List.cons_append, find?, hhere, ih, lastOr_cons, Option.map_map]
    · rfl
    · intro before d after hsplit
      rw [← lastOr_cons previous]
      exact h (c :: before) d after (by rw [hsplit, List.cons_append])

/-- A start of the text and a separator behind it are passed over if the recogniser accepts at none of
their places. -/
theorem find?_append_cons_of_reject {previous : Option Char} {start rest : List Char} {c : Char}
    (hstart : ∀ before d after, start = before ++ d :: after →
      recognise (lastOr previous before) (d :: (after ++ c :: rest)) = none)
    (hseparator : recognise (lastOr previous start) (c :: rest) = none) :
    find? recognise previous (start ++ c :: rest) =
      (find? recognise (some c) rest).map
        fun hit => { hit with before := start ++ c :: hit.before } := by
  rw [find?_append_of_reject hstart, find?, hseparator, Option.map_map]
  rfl

/-- A search for a literal passes over a text in which it does not occur, up to and including a
separator. -/
theorem find?_append_of_not_occurs {previous : Option Char} {word start : List Char} {c : Char}
    (rest : List Char) (hrecognise : ∀ previous text,
      after? word text = none → recognise previous text = none)
    (hstart : ¬word <:+: start) (hword : word ≠ []) (hc : c ∉ word) :
    find? recognise previous (start ++ c :: rest) =
      (find? recognise (some c) rest).map
        fun hit => { hit with before := start ++ c :: hit.before } := by
  apply find?_append_cons_of_reject
  · intro before d after hsplit
    exact hrecognise _ _ (after?_eq_none_of_not_occurs (hsplit ▸ hstart) hc)
  · exact hrecognise _ _ (after?_eq_none_of_notMem rest hword hc)

end Find

/-- The lines of a text with a line feed are those before and those behind it. -/
theorem lines_append_lineFeed (text rest : List Char) :
    lines (text ++ '\n' :: rest) = lines text ++ lines rest := by
  have hne (text : List Char) : lines text ≠ [] := by
    cases text with
    | nil => simp [lines]
    | cons c text =>
      rw [lines]
      split
      · simp
      · split <;> simp
  induction text with
  | nil => simp [lines]
  | cons c text ih =>
    rw [List.cons_append, lines, lines, ih]
    split
    · rfl
    · cases h : lines text with
      | nil => exact absurd h (hne text)
      | cons line others => simp

/-- A text without a line feed is one line. -/
theorem lines_of_notMem {text : List Char} (h : '\n' ∉ text) : lines text = [text] := by
  induction text with
  | nil => rfl
  | cons c text ih =>
    rw [List.mem_cons, not_or] at h
    rw [lines, if_neg (Ne.symm h.1), ih h.2]

/-- No line of a text has a line feed. -/
theorem lineFeed_notMem_of_mem_lines {text line : List Char} (h : line ∈ lines text) :
    '\n' ∉ line := by
  induction text generalizing line with
  | nil =>
    rw [lines, List.mem_singleton] at h
    simp [h]
  | cons c text ih =>
    rw [lines] at h
    split at h
    · rcases List.mem_cons.mp h with rfl | h
      · exact List.not_mem_nil
      · exact ih h
    · rename_i hfeed
      split at h
      · rw [List.mem_singleton] at h
        simpa [h] using Ne.symm hfeed
      · rename_i first others hlines
        rw [hlines] at ih
        rcases List.mem_cons.mp h with rfl | h
        · rw [List.mem_cons, not_or]
          exact ⟨Ne.symm hfeed, ih List.mem_cons_self⟩
        · exact ih (List.mem_cons_of_mem _ h)

section FindAll

variable {α : Type} {recognise : List Char → Option (α × List Char)}

/-- A recogniser that reads at least one character. -/
def Advances (recognise : List Char → Option (α × List Char)) : Prop :=
  ∀ text found rest, recognise text = some (found, rest) → rest.length < text.length

/-- As many steps as there are characters are enough to find all values. -/
theorem findAllWithin_eq_findAll (hadvance : Advances recognise) {fuel : Nat} {text : List Char}
    (hfuel : text.length ≤ fuel) : findAllWithin recognise fuel text = findAll recognise text := by
  rw [findAll]
  induction fuel using Nat.strong_induction_on generalizing text with
  | h fuel ih =>
    cases text with
    | nil => cases fuel <;> rfl
    | cons c text =>
      obtain ⟨fuel, rfl⟩ : ∃ n, fuel = n + 1 := ⟨fuel - 1, by simp at hfuel; omega⟩
      simp only [List.length_cons] at hfuel ⊢
      have hstep {rest : List Char} (hrest : rest.length ≤ text.length) :
          findAllWithin recognise fuel rest = findAllWithin recognise text.length rest := by
        rw [ih fuel (by omega) (by omega)]
        rcases Nat.lt_or_ge text.length (fuel + 1) with hlt | hge
        · exact (ih text.length hlt hrest).symm
        · omega
      rw [findAllWithin, findAllWithin]
      cases h : recognise (c :: text) with
      | none => exact hstep (Nat.le_refl _)
      | some hit =>
        have := hadvance _ _ _ h
        simp only [List.length_cons] at this
        simp only
        rw [hstep (by omega)]

/-- Nothing is found in the empty text. -/
@[simp] theorem findAll_nil : findAll recognise [] = [] := rfl

/-- An accepted value is found, and the search goes on behind it. -/
theorem findAll_of_accept (hadvance : Advances recognise) {text rest : List Char} {found : α}
    (h : recognise text = some (found, rest)) :
    findAll recognise text = found :: findAll recognise rest := by
  have hlt := hadvance _ _ _ h
  cases text with
  | nil => simp at hlt
  | cons c text =>
    rw [List.length_cons] at hlt
    rw [findAll, List.length_cons, findAllWithin, h]
    exact congrArg (found :: ·) (findAllWithin_eq_findAll hadvance (by omega))

/-- A character at which the recogniser does not accept is passed over. -/
theorem findAll_cons_of_reject {c : Char} {text : List Char} (h : recognise (c :: text) = none) :
    findAll recognise (c :: text) = findAll recognise text := by
  rw [findAll, List.length_cons, findAllWithin, h]
  rfl

/-- A start of the text at none of whose places the recogniser accepts is passed over. -/
theorem findAll_append_of_reject {start rest : List Char}
    (h : ∀ before c after, start = before ++ c :: after → recognise (c :: (after ++ rest)) = none) :
    findAll recognise (start ++ rest) = findAll recognise rest := by
  induction start with
  | nil => rfl
  | cons c start ih =>
    rw [List.cons_append, findAll_cons_of_reject (h [] c start rfl), ih]
    intro before d after hsplit
    exact h (c :: before) d after (by rw [hsplit, List.cons_append])

/-- A start of the text and a separator behind it are passed over if the recogniser accepts at none of
their places. -/
theorem findAll_append_cons_of_reject {start rest : List Char} {c : Char}
    (hstart : ∀ before d after, start = before ++ d :: after →
      recognise (d :: (after ++ c :: rest)) = none)
    (hseparator : recognise (c :: rest) = none) :
    findAll recognise (start ++ c :: rest) = findAll recognise rest := by
  rw [findAll_append_of_reject hstart, findAll_cons_of_reject hseparator]

/-- A search for all occurrences of a literal passes over a text in which it does not occur, up to
and including a separator. -/
theorem findAll_append_of_not_occurs {word start : List Char} {c : Char} (rest : List Char)
    (hrecognise : ∀ text, after? word text = none → recognise text = none)
    (hstart : ¬word <:+: start) (hword : word ≠ []) (hc : c ∉ word) :
    findAll recognise (start ++ c :: rest) = findAll recognise rest := by
  apply findAll_append_cons_of_reject
  · intro before d after hsplit
    exact hrecognise _ (after?_eq_none_of_not_occurs (hsplit ▸ hstart) hc)
  · exact hrecognise _ (after?_eq_none_of_notMem rest hword hc)

end FindAll

end PlcTypes.Text
