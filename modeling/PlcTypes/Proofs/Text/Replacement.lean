import PlcTypes.Proofs.Text.Search

/-!
# Replacing words

The occurrences of a word are replaced from left to right and without overlap. When the words of several
rules all start with the same mark, they can be replaced one after the other: what a rule puts in must not
belong to a word of a later rule, and no word may start another one. Then each word is replaced where it
stands in the text, and nothing else is.
-/

namespace PlcTypes.Text

/-- A text with every occurrence of a word replaced, from left to right and without overlap. The empty word
is not replaced. -/
def replaceAll (word new : List Char) : List Char → List Char
  | [] => []
  | c :: text =>
    match after? word (c :: text) with
    | some rest =>
      if rest.length < (c :: text).length then new ++ replaceAll word new rest
      else c :: replaceAll word new text
    | none => c :: replaceAll word new text
termination_by text => text.length
decreasing_by
  · assumption
  · exact Nat.lt_succ_self _
  · exact Nat.lt_succ_self _

/-- A text with the words of several rules replaced, one rule after the other. -/
def replaceEach (rules : List (List Char × List Char)) (text : List Char) : List Char :=
  rules.foldl (fun text rule => replaceAll rule.1 rule.2 text) text

variable {word new text : List Char} {c mark : Char} {rules : List (List Char × List Char)}
  {rule : List Char × List Char}

/-- A word in front of a text is replaced. -/
theorem replaceAll_append (rest : List Char) (hword : word ≠ []) :
    replaceAll word new (word ++ rest) = new ++ replaceAll word new rest := by
  obtain ⟨w, tail, rfl⟩ := List.exists_cons_of_ne_nil hword
  have hafter : after? (w :: tail) (w :: (tail ++ rest)) = some rest := after?_append (w :: tail) rest
  have hlength : rest.length < (w :: (tail ++ rest)).length := by
    simp only [List.length_cons, List.length_append]
    omega
  rw [List.cons_append, replaceAll, hafter]
  exact if_pos hlength

/-- The first character of a text is kept, or the word stands there and is replaced. -/
theorem replaceAll_cons_eq (word new : List Char) (c : Char) (text : List Char) :
    (∃ rest, replaceAll word new (c :: text) = new ++ replaceAll word new rest) ∨
      replaceAll word new (c :: text) = c :: replaceAll word new text := by
  rw [replaceAll]
  split
  · split
    · exact .inl ⟨_, rfl⟩
    · exact .inr rfl
  · exact .inr rfl

/-- A character in front of which the word does not stand is kept. -/
theorem replaceAll_cons (h : ¬word <+: c :: text) :
    replaceAll word new (c :: text) = c :: replaceAll word new text := by
  rw [replaceAll, after?_eq_none_iff.mpr h]

/-- A character that does not start the word is kept. -/
theorem replaceAll_cons_of_ne (text : List Char) (h : c ≠ mark) :
    replaceAll (mark :: word) new (c :: text) = c :: replaceAll (mark :: word) new text :=
  replaceAll_cons fun hstarts => h (List.cons_prefix_cons.mp hstarts).1.symm

/-- A text without the character that starts the word is kept. -/
theorem replaceAll_append_of_notMem {start : List Char} (rest : List Char) (h : mark ∉ start) :
    replaceAll (mark :: word) new (start ++ rest) = start ++ replaceAll (mark :: word) new rest := by
  induction start with
  | nil => rfl
  | cons c start ih =>
    rw [List.mem_cons, not_or] at h
    rw [List.cons_append, replaceAll_cons_of_ne _ (Ne.symm h.1), ih h.2, List.cons_append]

/-- A word of one character is replaced character by character. -/
theorem replaceAll_singleton (text : List Char) :
    replaceAll [mark] new text = text.flatMap fun c => if c = mark then new else [c] := by
  induction text with
  | nil => rw [replaceAll, List.flatMap_nil]
  | cons c text ih =>
    rw [List.flatMap_cons, ← ih]
    by_cases hc : c = mark
    · rw [hc, if_pos rfl]
      exact replaceAll_append text (List.cons_ne_nil mark [])
    · rw [if_neg hc, replaceAll_cons_of_ne text hc, List.singleton_append]

/-- No rule replaces anything in nothing. -/
theorem replaceEach_nil (rules : List (List Char × List Char)) : replaceEach rules [] = [] := by
  induction rules with
  | nil => rfl
  | cons rule others ih =>
    rw [replaceEach, List.foldl_cons, replaceAll]
    exact ih

/-- Words of one character are replaced on both sides of any place. -/
theorem replaceEach_append_of_singleton (h : ∀ rule ∈ rules, ∃ mark, rule.1 = [mark])
    (left right : List Char) :
    replaceEach rules (left ++ right) = replaceEach rules left ++ replaceEach rules right := by
  induction rules generalizing left right with
  | nil => rfl
  | cons rule others ih =>
    rw [List.forall_mem_cons] at h
    obtain ⟨mark, hmark⟩ := h.1
    have hsplit : replaceAll rule.1 rule.2 (left ++ right) =
        replaceAll rule.1 rule.2 left ++ replaceAll rule.1 rule.2 right := by
      rw [hmark, replaceAll_singleton, replaceAll_singleton, replaceAll_singleton, List.flatMap_append]
    rw [replaceEach, List.foldl_cons, hsplit]
    exact ih h.2 _ _

/-- Words of one character are replaced character by character. -/
theorem replaceEach_of_singleton (h : ∀ rule ∈ rules, ∃ mark, rule.1 = [mark]) (text : List Char) :
    replaceEach rules text = text.flatMap fun c => replaceEach rules [c] := by
  induction text with
  | nil => rw [replaceEach_nil, List.flatMap_nil]
  | cons c text ih =>
    rw [List.flatMap_cons, ← ih, ← replaceEach_append_of_singleton h, List.singleton_append]

section Marked

/-- The word of a rule starts with the mark and does not have it again. -/
def IsMarked (mark : Char) (word : List Char) : Prop := word.head? = some mark ∧ mark ∉ word.tail

instance : Decidable (IsMarked mark word) :=
  inferInstanceAs (Decidable (word.head? = some mark ∧ mark ∉ word.tail))

/-- A later rule finds the same words before and after an earlier one has been applied: what the earlier
one puts in does not belong to the later word, and neither word starts the other. -/
def IsApart (rule later : List Char × List Char) : Prop :=
  (rule.2 ≠ [] ∧ ∀ c ∈ rule.2, c ∉ later.1) ∧ ¬rule.1 <+: later.1 ∧ ¬later.1 <+: rule.1

instance (rule later : List Char × List Char) : Decidable (IsApart rule later) :=
  inferInstanceAs (Decidable
    ((rule.2 ≠ [] ∧ ∀ c ∈ rule.2, c ∉ later.1) ∧ ¬rule.1 <+: later.1 ∧ ¬later.1 <+: rule.1))

/-- A marked word is the mark and what follows. -/
theorem IsMarked.exists_cons (h : IsMarked mark word) : ∃ tail, word = mark :: tail ∧ mark ∉ tail := by
  obtain ⟨hhead, htail⟩ := h
  cases word with
  | nil => simp at hhead
  | cons w tail =>
    obtain rfl := Option.some.inj hhead
    exact ⟨tail, rfl, htail⟩

/-- Of two words that do not start each other only one can stand in front of a text. -/
theorem IsApart.not_starts {later : List Char × List Char} (h : IsApart rule later) (rest : List Char) :
    ¬rule.1 <+: later.1 ++ rest := by
  intro hstarts
  rcases List.prefix_or_prefix_of_prefix hstarts (List.prefix_append later.1 rest) with hprefix | hprefix
  · exact h.2.1 hprefix
  · exact h.2.2 hprefix

/-- Replacing a word makes nothing stand in front of a text that did not stand there, if none of it is put
in. -/
theorem prefix_of_prefix_replaceAll {start : List Char} (hnew : new ≠ []) (hstart : ∀ c ∈ new, c ∉ start)
    (h : start <+: replaceAll word new text) : start <+: text := by
  induction text generalizing start with
  | nil =>
    rw [replaceAll] at h
    exact h
  | cons c text ih =>
    rcases replaceAll_cons_eq word new c text with ⟨rest, hreplaced⟩ | hkept
    · obtain ⟨n, others, rfl⟩ := List.exists_cons_of_ne_nil hnew
      rw [hreplaced, List.cons_append] at h
      rcases List.prefix_cons_iff.mp h with rfl | ⟨tail, rfl, -⟩
      · exact List.nil_prefix
      · exact absurd List.mem_cons_self (hstart n List.mem_cons_self)
    · rw [hkept] at h
      rcases List.prefix_cons_iff.mp h with rfl | ⟨tail, rfl, htail⟩
      · exact List.nil_prefix
      · have hapart : ∀ d ∈ new, d ∉ tail := fun d hd hmem => hstart d hd (List.mem_cons_of_mem c hmem)
        exact List.cons_prefix_cons.mpr ⟨rfl, ih hapart htail⟩

/-- Rules whose words have the same mark keep a text without it. -/
theorem replaceEach_append_of_notMem {start : List Char} (hmarked : ∀ rule ∈ rules, IsMarked mark rule.1)
    (rest : List Char) (hstart : ∀ rule ∈ rules, mark ∉ start) :
    replaceEach rules (start ++ rest) = start ++ replaceEach rules rest := by
  induction rules generalizing rest with
  | nil => rfl
  | cons rule others ih =>
    rw [List.forall_mem_cons] at hmarked hstart
    obtain ⟨tail, hword, -⟩ := hmarked.1.exists_cons
    have hkept : replaceAll rule.1 rule.2 (start ++ rest) = start ++ replaceAll rule.1 rule.2 rest := by
      rw [hword, replaceAll_append_of_notMem rest hstart.1]
    rw [replaceEach, List.foldl_cons, hkept]
    exact ih hmarked.2 _ hstart.2

/-- A mark in front of which no word stands is kept by all rules: none of them makes up a word of a later
one behind it. -/
theorem replaceEach_cons_of_not_starts (hmarked : ∀ rule ∈ rules, IsMarked mark rule.1)
    (hapart : rules.Pairwise IsApart) (text : List Char) (h : ∀ rule ∈ rules, ¬rule.1 <+: mark :: text) :
    replaceEach rules (mark :: text) = mark :: replaceEach rules text := by
  induction rules generalizing text with
  | nil => rfl
  | cons rule others ih =>
    rw [List.forall_mem_cons] at hmarked h
    obtain ⟨hrule, hothers⟩ := List.pairwise_cons.mp hapart
    have hlater : ∀ later ∈ others, ¬later.1 <+: mark :: replaceAll rule.1 rule.2 text := by
      intro later hmem hstarts
      obtain ⟨tail, hword, -⟩ := (hmarked.2 later hmem).exists_cons
      obtain ⟨⟨hnew, hnotMem⟩, -⟩ := hrule later hmem
      rw [hword, List.cons_prefix_cons] at hstarts
      have htail : ∀ c ∈ rule.2, c ∉ tail :=
        fun c hc hin => hnotMem c hc (hword ▸ List.mem_cons_of_mem mark hin)
      apply h.2 later hmem
      rw [hword, List.cons_prefix_cons]
      exact ⟨rfl, prefix_of_prefix_replaceAll hnew htail hstarts.2⟩
    rw [replaceEach, List.foldl_cons, replaceAll_cons h.1]
    exact ih hmarked.2 hothers _ hlater

/-- The word of a rule in front of a text is replaced as that rule says. -/
theorem replaceEach_append_of_mem (hmarked : ∀ rule ∈ rules, IsMarked mark rule.1)
    (hapart : rules.Pairwise IsApart) (hmem : rule ∈ rules) (text : List Char) :
    replaceEach rules (rule.1 ++ text) = rule.2 ++ replaceEach rules text := by
  induction rules generalizing text with
  | nil => exact absurd hmem List.not_mem_nil
  | cons first others ih =>
    rw [List.forall_mem_cons] at hmarked
    obtain ⟨hfirst, hothers⟩ := List.pairwise_cons.mp hapart
    rw [replaceEach, List.foldl_cons]
    rcases List.mem_cons.mp hmem with rfl | hmem
    · obtain ⟨tail, hword, -⟩ := hmarked.1.exists_cons
      rw [replaceAll_append text (hword ▸ List.cons_ne_nil mark tail)]
      refine replaceEach_append_of_notMem hmarked.2 _ fun later hlater hmark => ?_
      obtain ⟨laterTail, hlaterWord, -⟩ := (hmarked.2 later hlater).exists_cons
      exact (hfirst later hlater).1.2 mark hmark (hlaterWord ▸ List.mem_cons_self)
    · obtain ⟨tail, hword, htail⟩ := (hmarked.2 rule hmem).exists_cons
      obtain ⟨firstTail, hfirstWord, -⟩ := hmarked.1.exists_cons
      have hstart : ¬first.1 <+: mark :: (tail ++ text) := by
        rw [← List.cons_append, ← hword]
        exact (hfirst rule hmem).not_starts text
      have hkept : replaceAll first.1 first.2 (rule.1 ++ text) = rule.1 ++ replaceAll first.1 first.2 text := by
        rw [hword, List.cons_append, replaceAll_cons hstart, hfirstWord, replaceAll_append_of_notMem text htail,
          List.cons_append]
      rw [hkept]
      exact ih hmarked.2 hothers hmem _

end Marked

end PlcTypes.Text
