import PlcTypes.Proofs.Text.Search
import PlcTypes.Proofs.Text.Space
import PlcTypes.StructuredText.Comment

/-!
# Comments read back

A folded description stays on its line, and one that is kept open cannot close its comment. So
the first comment behind the end of a declaration is read back as it was written.
-/

namespace PlcTypes.StructuredText

open Text

/-- The first character stays. -/
theorem head_keepOpen (text : List Char) : (keepOpen text).head? = text.head? := by
  fun_cases keepOpen text <;> rfl

/-- The last character stays. -/
theorem getLast_keepOpen (text : List Char) : (keepOpen text).getLast? = text.getLast? := by
  fun_induction keepOpen text with
  | case1 rest ih => simp [List.getLast?_cons, ih]
  | case2 c rest hclosed ih => simp only [List.getLast?_cons, ih]
  | case3 => rfl

/-- A trimmed text stays trimmed. -/
theorem isTrimmed_keepOpen {text : List Char} (h : IsTrimmed text) : IsTrimmed (keepOpen text) := by
  rw [isTrimmed_iff, head_keepOpen, getLast_keepOpen]
  exact (isTrimmed_iff text).mp h

/-- A text that is kept open closes no comment. -/
theorem not_closed_keepOpen (text : List Char) : ¬['*', ')'] <:+: keepOpen text := by
  fun_induction keepOpen text with
  | case1 rest ih =>
    rw [List.infix_cons_iff, List.infix_cons_iff, List.infix_cons_iff]
    simp [ih]
  | case2 c rest hclosed ih =>
    rw [List.infix_cons_iff, not_or]
    refine ⟨?_, ih⟩
    intro hstarts
    obtain ⟨rfl, hrest⟩ := List.cons_prefix_cons.mp hstarts
    have hhead := head_keepOpen rest
    obtain ⟨tail, htail⟩ := hrest
    rw [← htail] at hhead
    cases rest with
    | nil => simp at hhead
    | cons d rest =>
      obtain rfl : ')' = d := by simpa using hhead
      exact hclosed rest rfl rfl
  | case3 => simp

/-- A text that closes no comment is kept as it is. -/
theorem keepOpen_eq_self {text : List Char} (h : ¬['*', ')'] <:+: text) : keepOpen text = text := by
  fun_induction keepOpen text with
  | case1 rest ih => exact absurd (List.prefix_append ['*', ')'] rest).isInfix h
  | case2 c rest hclosed ih => rw [ih fun hoccurs => h (hoccurs.trans (List.suffix_cons c rest).isInfix)]
  | case3 => rfl

/-- The only white space that is put in are spaces. -/
theorem eq_space_of_mem_keepOpen {text : List Char} (h : ∀ c ∈ text, isSpace c = true → c = ' ') :
    ∀ c ∈ keepOpen text, isSpace c = true → c = ' ' := by
  fun_induction keepOpen text with
  | case1 rest ih =>
    intro c hc hspace
    simp only [List.mem_cons] at hc
    rcases hc with rfl | rfl | rfl | hc
    · exact absurd hspace (by decide)
    · rfl
    · exact absurd hspace (by decide)
    · exact ih (fun d hd => h d (by simp [hd])) c hc hspace
  | case2 c rest hclosed ih =>
    intro d hd hspace
    rcases List.mem_cons.mp hd with rfl | hd
    · exact h d List.mem_cons_self hspace
    · exact ih (fun e he => h e (List.mem_cons_of_mem _ he)) d hd hspace
  | case3 => exact h

/-- No white space is put beside other white space. -/
theorem isChain_keepOpen {text : List Char}
    (h : text.IsChain fun c d => isSpace c = false ∨ isSpace d = false) :
    (keepOpen text).IsChain fun c d => isSpace c = false ∨ isSpace d = false := by
  fun_induction keepOpen text with
  | case1 rest ih =>
    obtain ⟨-, hrest⟩ := List.isChain_cons.mp h
    obtain ⟨-, hrest⟩ := List.isChain_cons.mp hrest
    have hstar : isSpace '*' = false := by decide
    have hclose : isSpace ')' = false := by decide
    exact .cons_cons (Or.inl hstar) (.cons_cons (Or.inr hclose)
      ((ih hrest).cons fun c _ => Or.inl hclose))
  | case2 c rest hclosed ih =>
    obtain ⟨hnext, hrest⟩ := List.isChain_cons.mp h
    rw [List.isChain_cons, head_keepOpen]
    exact ⟨hnext, ih hrest⟩
  | case3 => exact h

/-- A folded text stays folded. -/
theorem isFolded_keepOpen {text : List Char} (h : IsFolded text) : IsFolded (keepOpen text) where
  trimmed := isTrimmed_keepOpen h.trimmed
  spaces := eq_space_of_mem_keepOpen h.spaces
  single := isChain_keepOpen h.single

/-- White space is only put between characters. -/
theorem lineFeed_notMem_keepOpen {text : List Char} (h : '\n' ∉ text) : '\n' ∉ keepOpen text := by
  fun_induction keepOpen text with
  | case1 rest ih =>
    simp only [List.mem_cons, not_or] at h ⊢
    exact ⟨h.1, by decide, h.2.1, ih h.2.2⟩
  | case2 c rest hclosed ih =>
    simp only [List.mem_cons, not_or] at h ⊢
    exact ⟨h.1, ih h.2⟩
  | case3 => exact h

/-- A trimmed text that closes no comment is read back from the first block comment. -/
theorem firstBlock?_append {before text : List Char} (rest : List Char)
    (hbefore : ¬['(', '*'] <:+: before ++ ['(']) (htrim : IsTrimmed text)
    (hopen : ¬['*', ')'] <:+: text) :
    firstBlock? (before ++ ('(' :: '*' :: ' ' :: (text ++ ' ' :: '*' :: ')' :: rest))) =
      some text := by
  have hclose : ¬['*', ')'] <:+: (' ' :: (text ++ [' '])) ++ ['*'] := by
    rw [List.cons_append, List.append_assoc, List.singleton_append]
    exact not_occurs_between (show ¬['*', ')'] <:+: [] by decide) hopen
      (show ¬['*', ')'] <:+: ['*'] by decide) (by decide) (by decide)
  have hcut : cut? ['(', '*'] (before ++ ('(' :: '*' :: ' ' :: (text ++ ' ' :: '*' :: ')' :: rest))) =
      some (before, ' ' :: (text ++ ' ' :: '*' :: ')' :: rest)) := cut?_append _ (by simp) hbefore
  have hend := cut?_append rest (List.cons_ne_nil _ _) hclose
  have hspace : trim (' ' :: (text ++ [' '])) = text := by
    rw [← List.cons_append, trim_append_right _ (by decide), htrim.trim_space]
  simp only [List.cons_append, List.append_assoc, List.nil_append] at hend
  simp only [firstBlock?, between?, hcut, Option.bind_some, hend, Option.map_some, hspace]

/-- A text without the opening of a block comment has none. -/
theorem firstBlock?_eq_none {text : List Char} (h : ¬['(', '*'] <:+: text) :
    firstBlock? text = none := by
  rw [firstBlock?, between?, cut?_eq_none h]
  rfl

/-- A trimmed text on one line is read back from the first line comment. -/
theorem firstLine?_append {before text : List Char} (rest : List Char)
    (hbefore : ¬['/', '/'] <:+: before ++ ['/']) (htrim : IsTrimmed text)
    (hfeed : '\n' ∉ text) (hreturn : '\r' ∉ text) :
    firstLine? (before ++ ('/' :: '/' :: ' ' :: (text ++ '\n' :: rest))) = some text := by
  have hcut : cut? ['/', '/'] (before ++ ('/' :: '/' :: ' ' :: (text ++ '\n' :: rest))) =
      some (before, ' ' :: (text ++ '\n' :: rest)) := cut?_append _ (by simp) hbefore
  have hline : ∀ c ∈ ' ' :: text, (c != '\r' && c != '\n') = true := by
    intro c hc
    rcases List.mem_cons.mp hc with rfl | hc
    · decide
    · simp only [Bool.and_eq_true, bne_iff_ne]
      exact ⟨fun heq => hreturn (heq ▸ hc), fun heq => hfeed (heq ▸ hc)⟩
  have htake : (' ' :: (text ++ '\n' :: rest)).takeWhile (fun c => c != '\r' && c != '\n') =
      ' ' :: text := takeWhile_append_cons rest hline (by decide)
  simp only [firstLine?, hcut, Option.map_some, htake, htrim.trim_space]

/-- A text without the opening of a line comment has none. -/
theorem firstLine?_eq_none {text : List Char} (h : ¬['/', '/'] <:+: text) :
    firstLine? text = none := by
  rw [firstLine?, cut?_eq_none h]
  rfl

end PlcTypes.StructuredText
