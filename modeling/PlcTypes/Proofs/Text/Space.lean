import Mathlib.Data.List.Chain
import Mathlib.Data.List.DropRight
import Mathlib.Data.List.Infix
import PlcTypes.Proofs.Text.Occurrence
import PlcTypes.Text.Space

/-!
# Trimming and folding

A text is trimmed if it is its own trim, which only depends on its first and its last
character. Folding a text onto one line leaves single spaces for white space and so can
neither bring in a line break nor a word that was not there before.
-/

namespace PlcTypes.Text

/-- A text without white space at either end. -/
def IsTrimmed (text : List Char) : Prop := trim text = text

instance (text : List Char) : Decidable (IsTrimmed text) :=
  inferInstanceAs (Decidable (trim text = text))

/-- Dropping a final run is the mirror image of dropping an initial one. -/
theorem dropEndWhile_eq_rdropWhile (p : Char → Bool) (text : List Char) :
    dropEndWhile p text = text.rdropWhile p := by
  induction text with
  | nil => rfl
  | cons c rest ih =>
    rw [dropEndWhile, ih, List.rdropWhile, List.rdropWhile, List.reverse_cons,
      List.dropWhile_append]
    cases h : rest.reverse.dropWhile p with
    | nil =>
      by_cases hc : p c <;> simp [hc]
    | cons d others => simp

/-- A final run of characters to be dropped does not matter. -/
theorem dropEndWhile_append_of_all {p : Char → Bool} {tail : List Char} (text : List Char)
    (htail : ∀ c ∈ tail, p c = true) : dropEndWhile p (text ++ tail) = dropEndWhile p text := by
  rw [dropEndWhile_eq_rdropWhile, dropEndWhile_eq_rdropWhile, List.rdropWhile, List.rdropWhile,
    List.reverse_append, List.dropWhile_append_of_pos (by simpa using htail)]

/-- A final run is dropped behind a text that does not end with a character to be dropped. -/
theorem dropEndWhile_append_of_last {p : Char → Bool} {left : List Char} (right : List Char)
    (h : ∀ c ∈ left.getLast?, p c = false) :
    dropEndWhile p (left ++ right) = left ++ dropEndWhile p right := by
  have hleft : left.reverse.dropWhile p = left.reverse := by
    cases hreverse : left.reverse with
    | nil => rfl
    | cons c rest =>
      have hlast : left.getLast? = some c := by rw [← List.head?_reverse, hreverse, List.head?_cons]
      rw [List.dropWhile_cons_of_neg (by simp [h c hlast])]
  rw [dropEndWhile_eq_rdropWhile, dropEndWhile_eq_rdropWhile, List.rdropWhile, List.rdropWhile,
    List.reverse_append, List.dropWhile_append]
  split
  · rename_i hnil
    rw [List.isEmpty_iff.mp hnil, hleft, List.reverse_reverse]
    simp
  · simp

/-- If not all characters are dropped, the first one stays. -/
theorem dropEndWhile_cons {p : Char → Bool} {c : Char} {rest : List Char}
    (h : (c :: rest).dropWhile p ≠ []) : dropEndWhile p (c :: rest) = c :: dropEndWhile p rest := by
  rw [dropEndWhile]
  split
  · rename_i hnil
    have hall : ∀ d ∈ rest, p d = true := by
      rwa [dropEndWhile_eq_rdropWhile, List.rdropWhile_eq_nil_iff] at hnil
    have hc : p c = false := by
      by_contra hc
      exact h (List.dropWhile_eq_nil_iff.mpr (List.forall_mem_cons.mpr ⟨by simpa using hc, hall⟩))
    rw [hc, hnil]
    rfl
  · rfl

/-- It makes no difference at which end a text is trimmed first. -/
theorem dropWhile_dropEndWhile (p : Char → Bool) (text : List Char) :
    (dropEndWhile p text).dropWhile p = dropEndWhile p (text.dropWhile p) := by
  induction text with
  | nil => rfl
  | cons c rest ih =>
    cases hc : p c with
    | true =>
      rw [List.dropWhile_cons_of_pos hc, ← ih, dropEndWhile]
      split
      · rename_i hnil
        simp [hc, hnil]
      · rw [List.dropWhile_cons_of_pos hc]
    | false =>
      rw [List.dropWhile_cons_of_neg (by simp [hc]), dropEndWhile]
      split <;> simp [hc]

/-- What is left after dropping a final run starts the text. -/
theorem dropEndWhile_isPrefix (p : Char → Bool) (text : List Char) : dropEndWhile p text <+: text := by
  rw [dropEndWhile_eq_rdropWhile]
  exact List.rdropWhile_prefix p text

/-- What is dropped at the end consists of characters to be dropped. -/
theorem exists_dropEndWhile_append (p : Char → Bool) (text : List Char) :
    ∃ tail, text = dropEndWhile p text ++ tail ∧ ∀ c ∈ tail, p c = true := by
  rw [dropEndWhile_eq_rdropWhile]
  exact ⟨text.rtakeWhile p, List.rdropWhile_append_rtakeWhile.symm,
    fun c hc => List.mem_rtakeWhile_imp hc⟩

/-- The last character left is one that is not dropped. -/
theorem getLast_dropEndWhile {p : Char → Bool} {text : List Char} {c : Char}
    (h : (dropEndWhile p text).getLast? = some c) : p c = false := by
  rw [dropEndWhile_eq_rdropWhile] at h
  have hne : text.rdropWhile p ≠ [] := by
    intro hnil
    simp [hnil] at h
  rw [List.getLast?_eq_some_getLast hne, Option.some.injEq] at h
  simpa [h] using List.rdropWhile_last_not p text hne

/-- The first character left is one that is not dropped. -/
theorem head_dropWhile {p : Char → Bool} {text : List Char} {c : Char}
    (h : (text.dropWhile p).head? = some c) : p c = false := by
  have := List.head?_dropWhile_not p text
  simpa [h] using this

/-- White space in front does not matter to the trimmed text. -/
theorem trim_append_left {space : List Char} (text : List Char) (h : ∀ c ∈ space, isSpace c = true) :
    trim (space ++ text) = trim text := by
  rw [trim, trim, List.dropWhile_append_of_pos h]

/-- A trimmed text is what is left of it behind a space. -/
theorem IsTrimmed.trim_space {text : List Char} (h : IsTrimmed text) : trim (' ' :: text) = text := by
  have hspace : ∀ c ∈ [' '], isSpace c = true := by decide
  rw [← List.singleton_append, trim_append_left text hspace]
  exact h

/-- White space at the end does not matter to the trimmed text. -/
theorem trim_append_right {space : List Char} (text : List Char)
    (h : ∀ c ∈ space, isSpace c = true) : trim (text ++ space) = trim text := by
  rw [trim, trim, List.dropWhile_append]
  split
  · rename_i hnil
    rw [List.isEmpty_iff.mp hnil, List.dropWhile_eq_nil_iff.mpr h]
  · exact dropEndWhile_append_of_all _ h

/-- A text is trimmed if it neither starts nor ends with white space. -/
theorem isTrimmed_iff (text : List Char) :
    IsTrimmed text ↔
      (∀ c ∈ text.head?, isSpace c = false) ∧ ∀ c ∈ text.getLast?, isSpace c = false := by
  constructor
  · intro h
    constructor
    · intro c hc
      have hstarts := dropEndWhile_isPrefix isSpace (text.dropWhile isSpace)
      rw [show dropEndWhile isSpace (text.dropWhile isSpace) = text from h] at hstarts
      refine @head_dropWhile isSpace text c ?_
      cases text with
      | nil => simp at hc
      | cons d rest =>
        obtain ⟨tail, htail⟩ := hstarts
        rw [← htail]
        simpa using hc
    · intro c hc
      rw [← h] at hc
      exact getLast_dropEndWhile hc
  · rintro ⟨hhead, hlast⟩
    have hdrop : text.dropWhile isSpace = text := by
      cases text with
      | nil => rfl
      | cons c rest => rw [List.dropWhile_cons_of_neg (by simp [hhead c rfl])]
    rw [IsTrimmed, trim, hdrop, dropEndWhile_eq_rdropWhile, List.rdropWhile_eq_self_iff]
    intro hne
    simp [hlast _ (List.getLast?_eq_some_getLast hne)]

/-- A text without white space is trimmed. -/
theorem isTrimmed_of_all {text : List Char} (h : ∀ c ∈ text, isSpace c = false) :
    IsTrimmed text :=
  (isTrimmed_iff text).mpr
    ⟨fun c hc => h c (List.mem_of_mem_head? hc), fun c hc => h c (List.mem_of_getLast? hc)⟩

/-- What is left of a text by trimming is trimmed. -/
theorem isTrimmed_trim (text : List Char) : IsTrimmed (trim text) := by
  rw [isTrimmed_iff]
  constructor
  · intro c hc
    obtain ⟨tail, htail⟩ := dropEndWhile_isPrefix isSpace (text.dropWhile isSpace)
    refine @head_dropWhile isSpace text c ?_
    rw [← htail]
    have htrim : (dropEndWhile isSpace (text.dropWhile isSpace)).head? = some c := hc
    rw [List.head?_append, htrim]
    rfl
  · intro c hc
    exact getLast_dropEndWhile hc

/-- A text that starts with no white space is not trimmed away. -/
theorem trim_cons_ne_nil {c : Char} (rest : List Char) (hc : isSpace c = false) :
    trim (c :: rest) ≠ [] := by
  rw [trim, List.dropWhile_cons_of_neg (by simp [hc]), dropEndWhile]
  split
  · simp [hc]
  · exact List.cons_ne_nil _ _

/-- Trimming keeps only characters of the text. -/
theorem mem_of_mem_trim {c : Char} {text : List Char} (h : c ∈ trim text) : c ∈ text :=
  (List.dropWhile_sublist isSpace).subset
    ((dropEndWhile_isPrefix isSpace (text.dropWhile isSpace)).sublist.subset h)

/-- A word: at least one character, and no white space. -/
def IsWord (word : List Char) : Prop := word ≠ [] ∧ ∀ c ∈ word, isSpace c = false

/-- Putting a word in front adds it unless it is empty. -/
theorem mem_consWord {word other : List Char} {others : List (List Char)}
    (h : other ∈ consWord word others) : (other = word ∧ word ≠ []) ∨ other ∈ others := by
  cases word with
  | nil => exact Or.inr h
  | cons c rest =>
    rcases List.mem_cons.mp h with rfl | h
    · exact Or.inl ⟨rfl, by simp⟩
    · exact Or.inr h

/-- A part of a text that reaches up to white space or to the end of the text on both sides. -/
def IsRun (part text : List Char) : Prop :=
  ∃ before after, text = before ++ (part ++ after) ∧
    (∀ c ∈ before.getLast?, isSpace c = true) ∧ ∀ c ∈ after.head?, isSpace c = true

/-- A run occurs in the text. -/
theorem IsRun.isInfix {part text : List Char} (h : IsRun part text) : part <:+: text := by
  obtain ⟨before, after, rfl, -, -⟩ := h
  exact List.infix_append' before part after

/-- The first word is a start of the text without white space up to some white space, and the later
ones are words that are runs of the text behind white space. -/
theorem firstWord_spec (text : List Char) :
    (∃ after, text = (firstWord text).1 ++ after ∧ (∀ c ∈ after.head?, isSpace c = true) ∧
      ∀ c ∈ (firstWord text).1, isSpace c = false) ∧
    ∀ word ∈ (firstWord text).2, IsWord word ∧ ∃ before c after,
      text = before ++ c :: (word ++ after) ∧ isSpace c = true ∧
        ∀ d ∈ after.head?, isSpace d = true := by
  induction text with
  | nil => simp [firstWord]
  | cons c rest ih =>
    obtain ⟨⟨behind, hbehind, hend, hspace⟩, hothers⟩ := ih
    have hlater : ∀ word ∈ (firstWord rest).2, IsWord word ∧ ∃ before d after,
        c :: rest = before ++ d :: (word ++ after) ∧ isSpace d = true ∧
          ∀ e ∈ after.head?, isSpace e = true := by
      intro word hword
      obtain ⟨hisWord, before, d, after, hsplit, hd, hafter⟩ := hothers word hword
      exact ⟨hisWord, c :: before, d, after, by rw [hsplit, List.cons_append], hd, hafter⟩
    by_cases hc : isSpace c = true
    · simp only [firstWord, hc, if_true]
      refine ⟨⟨c :: rest, rfl, fun d hd => ?_, by simp⟩, fun word hword => ?_⟩
      · obtain rfl : c = d := by simpa using hd
        exact hc
      · rcases mem_consWord hword with ⟨rfl, hne⟩ | hmem
        · exact ⟨⟨hne, hspace⟩, [], c, behind, by rw [List.nil_append, ← hbehind], hc, hend⟩
        · exact hlater word hmem
    · rw [Bool.not_eq_true] at hc
      simp only [firstWord, hc, Bool.false_eq_true, if_false]
      refine ⟨⟨behind, by rw [List.cons_append, ← hbehind], hend, fun d hd => ?_⟩, hlater⟩
      rcases List.mem_cons.mp hd with rfl | hd
      · exact hc
      · exact hspace d hd

/-- The words of a text are words that are runs of it. -/
theorem words_spec {text word : List Char} (h : word ∈ words text) :
    IsWord word ∧ IsRun word text := by
  obtain ⟨⟨behind, hbehind, hend, hspace⟩, hothers⟩ := firstWord_spec text
  rcases mem_consWord h with ⟨rfl, hne⟩ | hmem
  · exact ⟨⟨hne, hspace⟩, [], behind, hbehind, by simp, hend⟩
  · obtain ⟨hword, before, c, after, rfl, hc, hafter⟩ := hothers word hmem
    refine ⟨hword, before ++ [c], after, by simp, ?_, hafter⟩
    rw [List.getLast?_concat]
    intro d hd
    exact Option.mem_some_iff.mp hd ▸ hc

/-- The only white space between words joined by spaces are these spaces. -/
theorem eq_space_of_mem_joined {ws : List (List Char)} (hws : ∀ word ∈ ws, IsWord word) {c : Char}
    (hc : c ∈ [' '].intercalate ws) (hspace : isSpace c = true) : c = ' ' := by
  induction ws with
  | nil => simp [List.intercalate_nil] at hc
  | cons word others ih =>
    have hword : c ∉ word := by
      intro hmem
      simp [(hws word List.mem_cons_self).2 c hmem] at hspace
    cases others with
    | nil =>
      rw [List.intercalate_singleton] at hc
      exact absurd hc hword
    | cons other others =>
      rw [List.intercalate_cons_cons] at hc
      simp only [List.append_assoc, List.mem_append, List.mem_singleton, hword, false_or] at hc
      rcases hc with rfl | hc
      · rfl
      · exact ih (fun word hmem => hws word (List.mem_cons_of_mem _ hmem)) hc

/-- Words joined by spaces start with the first one. -/
theorem prefix_joined_cons (word : List Char) (others : List (List Char)) :
    word <+: [' '].intercalate (word :: others) := by
  cases others with
  | nil => rw [List.intercalate_singleton]
  | cons other others =>
    rw [List.intercalate_cons_cons, List.append_assoc]
    exact List.prefix_append ..

/-- Words joined by spaces start and end like words. -/
theorem isTrimmed_joined {ws : List (List Char)} (hws : ∀ word ∈ ws, IsWord word) :
    IsTrimmed ([' '].intercalate ws) := by
  rw [isTrimmed_iff]
  constructor
  · cases ws with
    | nil => simp [List.intercalate_nil]
    | cons word others =>
      obtain ⟨hne, hspace⟩ := hws word List.mem_cons_self
      obtain ⟨tail, htail⟩ := prefix_joined_cons word others
      intro c hc
      rw [← htail, List.head?_append_of_ne_nil _ hne] at hc
      exact hspace c (List.mem_of_mem_head? hc)
  · induction ws with
    | nil => simp [List.intercalate_nil]
    | cons word others ih =>
      intro c hc
      cases others with
      | nil =>
        rw [List.intercalate_singleton] at hc
        exact (hws word List.mem_cons_self).2 c (List.mem_of_getLast? hc)
      | cons other others =>
        have htail : ∀ w ∈ other :: others, IsWord w := fun w hw =>
          hws w (List.mem_cons_of_mem _ hw)
        have hne : [' '].intercalate (other :: others) ≠ [] :=
          (prefix_joined_cons other others).ne_nil (htail other List.mem_cons_self).1
        rw [List.intercalate_cons_cons, List.getLast?_append_of_ne_nil _ hne] at hc
        exact ih htail c hc

/-- A text without white space that occurs in words joined by spaces occurs in one of them. -/
theorem infix_of_infix_joined {ws : List (List Char)} {part : List Char} (hpart : IsWord part)
    (h : part <:+: [' '].intercalate ws) : ∃ word ∈ ws, part <:+: word := by
  have hsep : ' ' ∉ part := by
    intro hmem
    have := hpart.2 _ hmem
    revert this
    decide
  induction ws with
  | nil =>
    rw [List.intercalate_nil, List.infix_nil] at h
    exact absurd h hpart.1
  | cons word others ih =>
    cases others with
    | nil =>
      rw [List.intercalate_singleton] at h
      exact ⟨word, List.mem_cons_self, h⟩
    | cons other others =>
      rw [List.intercalate_cons_cons, List.append_assoc, List.singleton_append,
        infix_append_cons_iff hsep] at h
      rcases h with h | h
      · exact ⟨word, List.mem_cons_self, h⟩
      · obtain ⟨w, hw, hoccurs⟩ := ih h
        exact ⟨w, List.mem_cons_of_mem _ hw, hoccurs⟩

/-- A folded text is trimmed. -/
theorem isTrimmed_foldLine (text : List Char) : IsTrimmed (foldLine text) :=
  isTrimmed_joined fun _ hword => (words_spec hword).1

/-- The only white space of a folded text are spaces. -/
theorem eq_space_of_mem_foldLine {text : List Char} {c : Char} (hc : c ∈ foldLine text)
    (hspace : isSpace c = true) : c = ' ' :=
  eq_space_of_mem_joined (fun _ hword => (words_spec hword).1) hc hspace

/-- A folded text has no line feed. -/
theorem lineFeed_notMem_foldLine (text : List Char) : '\n' ∉ foldLine text := fun h =>
  absurd (eq_space_of_mem_foldLine h (by decide)) (by decide)

/-- A folded text has no carriage return. -/
theorem return_notMem_foldLine (text : List Char) : '\r' ∉ foldLine text := fun h =>
  absurd (eq_space_of_mem_foldLine h (by decide)) (by decide)

/-- A text on one line with single spaces between its words. -/
structure IsFolded (text : List Char) : Prop where
  trimmed : IsTrimmed text
  spaces : ∀ c ∈ text, isSpace c = true → c = ' '
  single : text.IsChain fun c d => isSpace c = false ∨ isSpace d = false

/-- Words joined by spaces have no two spaces side by side. -/
theorem isChain_joined {ws : List (List Char)} (hws : ∀ word ∈ ws, IsWord word) :
    ([' '].intercalate ws).IsChain fun c d => isSpace c = false ∨ isSpace d = false := by
  induction ws with
  | nil => rw [List.intercalate_nil]; exact .nil
  | cons word others ih =>
    have hspace := (hws word List.mem_cons_self).2
    have hword : word.IsChain fun c d => isSpace c = false ∨ isSpace d = false :=
      (List.pairwise_of_forall_mem_list fun c hc d _ => Or.inl (hspace c hc)).isChain
    cases others with
    | nil => rwa [List.intercalate_singleton]
    | cons other others =>
      have htail : ∀ w ∈ other :: others, IsWord w := fun w hw => hws w (List.mem_cons_of_mem _ hw)
      rw [List.intercalate_cons_cons, List.append_assoc, List.isChain_append]
      refine ⟨hword, ?_, fun c hc _ _ => Or.inl (hspace c (List.mem_of_getLast? hc))⟩
      rw [List.singleton_append, List.isChain_cons]
      exact ⟨fun c hc => Or.inr (((isTrimmed_iff _).mp (isTrimmed_joined htail)).1 c hc), ih htail⟩

/-- A folded text is on one line with single spaces between its words. -/
theorem isFolded_foldLine (text : List Char) : IsFolded (foldLine text) where
  trimmed := isTrimmed_foldLine text
  spaces _ hc := eq_space_of_mem_foldLine hc
  single := isChain_joined fun _ hword => (words_spec hword).1

/-- A character in front of the first word is in front of the joined words. -/
theorem joined_cons_cons (c : Char) (word : List Char) (others : List (List Char)) :
    [' '].intercalate ((c :: word) :: others) = c :: [' '].intercalate (word :: others) := by
  cases others with
  | nil => rw [List.intercalate_singleton, List.intercalate_singleton]
  | cons other others =>
    rw [List.intercalate_cons_cons, List.intercalate_cons_cons, List.cons_append, List.cons_append]

/-- The words of a text with single spaces between them, joined by spaces, are the text. -/
theorem joined_firstWord {text : List Char} (hspaces : ∀ c ∈ text, isSpace c = true → c = ' ')
    (hsingle : text.IsChain fun c d => isSpace c = false ∨ isSpace d = false)
    (hend : ∀ c ∈ text.getLast?, isSpace c = false) :
    [' '].intercalate ((firstWord text).1 :: (firstWord text).2) = text := by
  induction text with
  | nil => rfl
  | cons c rest ih =>
    obtain ⟨hnext, hrest⟩ := List.isChain_cons.mp hsingle
    have hspacesRest : ∀ d ∈ rest, isSpace d = true → d = ' ' := fun d hd =>
      hspaces d (List.mem_cons_of_mem c hd)
    by_cases hc : isSpace c = true
    · obtain rfl : c = ' ' := hspaces c List.mem_cons_self hc
      cases rest with
      | nil => simp [hc] at hend
      | cons d tail =>
        have hd : isSpace d = false := by simpa [hc] using hnext
        have hjoined := ih hspacesRest hrest hend
        simp only [firstWord, hd, Bool.false_eq_true, if_false] at hjoined
        simp only [firstWord, hc, hd, Bool.false_eq_true, if_false, if_true, consWord]
        rw [List.intercalate_cons_cons, hjoined]
        rfl
    · rw [Bool.not_eq_true] at hc
      have hendRest : ∀ d ∈ rest.getLast?, isSpace d = false := by
        intro d hd
        refine hend d ?_
        rw [List.getLast?_cons, hd]
        rfl
      have hjoined := ih hspacesRest hrest hendRest
      simp only [firstWord, hc, Bool.false_eq_true, if_false]
      rw [joined_cons_cons, hjoined]

/-- Folding a folded text changes nothing. -/
theorem IsFolded.foldLine_eq {text : List Char} (h : IsFolded text) : foldLine text = text := by
  have hjoined := joined_firstWord h.spaces h.single ((isTrimmed_iff text).mp h.trimmed).2
  cases text with
  | nil => rfl
  | cons c rest =>
    have hc : isSpace c = false := ((isTrimmed_iff _).mp h.trimmed).1 c rfl
    simp only [firstWord, hc, Bool.false_eq_true, if_false] at hjoined
    simp only [foldLine, words, firstWord, hc, Bool.false_eq_true, if_false, consWord, hjoined]

/-- Folding brings in no text without white space. -/
theorem infix_of_infix_foldLine {text part : List Char} (hpart : IsWord part)
    (h : part <:+: foldLine text) : part <:+: text := by
  obtain ⟨word, hword, hoccurs⟩ := infix_of_infix_joined hpart h
  exact hoccurs.trans (words_spec hword).2.isInfix

end PlcTypes.Text
