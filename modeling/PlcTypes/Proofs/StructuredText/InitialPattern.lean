import PlcTypes.Proofs.StructuredText.DescriptionPattern

/-!
# The initial value of a declaration

An initial value is quoted or reaches up to the next semicolon. Only where there is no way to go on
behind a quoted one is the quote read as part of a bare value.
-/

namespace PlcTypes.StructuredText

open Text Pattern

variable {previous : Option Char} {text : List Char}

section Quoted

variable {β : Type} {next : Option Char → List Char → Option β}

/-- A dollar sign and the character behind it are taken together. -/
theorem takenBefore?_quotedPart_escaped {c : Char} :
    quotedPart.takenBefore? next previous ('$' :: c :: text) =
      if c = '\n' then none else (next (some c) text).map (['$', c], ·) := by
  have hplain : (one (· ∉ ['\'', '$', '\r', '\n']) : Pattern DeclarationPart).takenBefore? next previous
      ('$' :: c :: text) = none := by
    rw [takenBefore?_one_cons, if_neg (by decide)]
  rw [quotedPart, takenBefore?_or, hplain, Option.or_none, all, List.foldr, char,
    takenBefore?_seq_one_cons (by decide), List.foldr, takenBefore?_seq, takenBefore?_one_cons,
    List.foldr, takenBefore?_nothing]
  by_cases hc : c = '\n'
  · rw [if_pos hc, if_neg (by simp [hc])]
    rfl
  · rw [if_neg hc, if_pos (by simp [hc])]
    simp only [Option.map_map]
    rfl

/-- Nothing is taken behind a dollar sign at the end. -/
theorem takenBefore?_quotedPart_dollar : quotedPart.takenBefore? next previous ['$'] = none := by
  rw [quotedPart, takenBefore?_or, all, List.foldr, char, takenBefore?_seq_one_cons (by decide),
    List.foldr, takenBefore?_seq_one_nil, takenBefore?_one_cons, if_neg (by decide)]
  rfl

/-- Another character is taken alone. -/
theorem takenBefore?_quotedPart_plain {c : Char} (hc : c ≠ '$') :
    quotedPart.takenBefore? next previous (c :: text) =
      if c = '\'' ∨ c = '\r' ∨ c = '\n' then none else (next (some c) text).map ([c], ·) := by
  rw [quotedPart, takenBefore?_or, all, List.foldr, char, takenBefore?_seq_one_of_reject (by simpa using hc),
    Option.none_or, takenBefore?_one_cons]
  have haccept : decide (c ∉ ['\'', '$', '\r', '\n']) = true ↔
      ¬(c = '\'' ∨ c = '\r' ∨ c = '\n') := by
    simp [hc]
  by_cases hstop : c = '\'' ∨ c = '\r' ∨ c = '\n'
  · rw [if_pos hstop, if_neg fun h => haccept.mp h hstop]
  · rw [if_neg hstop, if_pos (haccept.mpr hstop)]

/-- The parts of a quoted value reach up to the quote that closes it. -/
theorem takenBefore?_many_quotedPart (hnil : ∀ previous, next previous [] = none)
    (hquote : ∀ previous c rest, c ≠ '\'' → next previous (c :: rest) = none) :
    (many true quotedPart).takenBefore? next previous text =
      (takeQuoted? text).bind fun (inner, rest) =>
        (next (lastOr previous inner) ('\'' :: rest)).map (inner, ·) := by
  have hround {previous : Option Char} {text : List Char} :
      (many true quotedPart).takenBefore? next previous text =
        ((quotedPart.takenBefore? ((many true quotedPart).takenBefore? next) previous text).map
          fun found => (found.1 ++ found.2.1, found.2.2)).or
          ((next previous text).map ([], ·)) := by
    rw [takenBefore?_greedy fun _ => rfl, takenBefore?_seq]
  fun_induction takeQuoted? text generalizing previous with
  | case1 =>
    rw [hround, hnil]
    rfl
  | case2 =>
    rw [hround, takenBefore?_quotedPart_dollar, hquote _ _ _ (by decide)]
    rfl
  | case3 rest =>
    rw [hround, takenBefore?_quotedPart_escaped, if_pos rfl, hquote _ _ _ (by decide)]
    rfl
  | case4 c rest hc ih =>
    rw [hround, takenBefore?_quotedPart_escaped, if_neg hc, hquote _ _ _ (by decide), ih]
    cases takeQuoted? rest with
    | none => rfl
    | some found =>
      obtain ⟨inner, tail⟩ := found
      simp only [Option.bind_some, Option.map_some, Option.map_map, Option.map_none, Option.or_none,
        lastOr_cons]
      rfl
  | case5 rest hend hescape =>
    rw [hround, takenBefore?_quotedPart_plain (by decide), if_pos (Or.inl rfl)]
    rfl
  | case6 c rest hend hescape hc hstop =>
    have hdollar : c ≠ '$' := by
      rintro rfl
      simp at hstop
    rw [hround, takenBefore?_quotedPart_plain hdollar, if_pos (Or.inr hstop), hquote _ _ _ hc]
    rfl
  | case7 c rest hend hescape hc hstop ih =>
    have hdollar : c ≠ '$' := by
      rintro rfl
      cases rest with
      | nil => exact hend rfl rfl
      | cons d rest => exact hescape d rest rfl rfl
    rw [hround, takenBefore?_quotedPart_plain hdollar, if_neg (not_or.mpr ⟨hc, hstop⟩),
      hquote _ _ _ hc, ih]
    cases takeQuoted? rest with
    | none => rfl
    | some found =>
      obtain ⟨inner, tail⟩ := found
      simp only [Option.bind_some, Option.map_some, Option.map_map, Option.map_none, Option.or_none,
        lastOr_cons]
      rfl

/-- A quoted value is the one that is scanned behind its opening quote. -/
theorem takenBefore?_quotedPattern : quotedPattern.takenBefore? next previous text =
    ((after? ['\''] text).bind takeQuoted?).bind fun (inner, rest) =>
      (next (some '\'') rest).map ('\'' :: (inner ++ ['\'']), ·) := by
  have hclose (previous : Option Char) (rest : List Char) :
      (seq (char '\'') nothing : Pattern DeclarationPart).takenBefore? next previous ('\'' :: rest) =
        (next (some '\'') rest).map (['\''], ·) := by
    rw [char, takenBefore?_seq_one_cons (by decide), takenBefore?_nothing, Option.map_map]
    rfl
  rw [quotedPattern, all, List.foldr, List.foldr, List.foldr, List.foldr]
  cases text with
  | nil =>
    rw [char, takenBefore?_seq_one_nil]
    rfl
  | cons c rest =>
    by_cases hc : c = '\''
    · rw [hc, char, takenBefore?_seq_one_cons (by decide), ← char, takenBefore?_seq,
        takenBefore?_many_quotedPart]
      · rw [after?, if_pos (by decide), after?, Option.bind_some]
        cases takeQuoted? rest with
        | none => rfl
        | some found =>
          simp only [Option.bind_some, hclose, Option.map_map]
          rfl
      · exact fun previous => takenBefore?_seq_one_nil
      · exact fun previous c rest hc => takenBefore?_seq_one_of_reject (by simpa using hc)
    · rw [char, takenBefore?_seq_one_of_reject (by simpa using hc), after?,
        if_neg (by simpa using Ne.symm hc)]
      rfl

end Quoted

/-- A declaration with no more than an initial value and a description. An empty value is none. -/
def initialised (found : List Char × List Char) : Declaration :=
  ⟨[], [], if found.1 = [] then none else some found.1, found.2⟩

/-- A named initial value in front of a description. -/
theorem ofParts_initial (value : List Char) {parts : List (DeclarationPart × List Char)}
    {description : List Char} (h : Declaration.ofParts parts = described description) :
    Declaration.ofParts ((.initial, value) :: parts) = initialised (trim value, description) := by
  have hcons : Declaration.ofParts ((.initial, value) :: parts) =
      { Declaration.ofParts parts with initial := (some (trim value)).filter (· ≠ []) } := rfl
  rw [hcons, h, initialised, described]
  by_cases hvalue : trim value = [] <;> simp [hvalue, Option.filter]

/-- A named initial value in front of what may be a description. -/
theorem map_ofParts_initial (value : List Char) {found : Option (List (DeclarationPart × List Char))}
    {closed : Option (List Char)} (h : found.map Declaration.ofParts = closed.map described) :
    found.map (fun parts => Declaration.ofParts ((.initial, value) :: parts)) =
      closed.map fun description => initialised (trim value, description) := by
  cases found with
  | none => rw [Option.map_eq_none_iff.mp h.symm]; rfl
  | some parts =>
    obtain ⟨description, rfl, hparts⟩ := Option.map_eq_some_iff.mp h.symm
    rw [Option.map_some, ofParts_initial value hparts.symm]
    rfl

/-- A quoted value is trimmed. -/
theorem trim_quoted (inner : List Char) :
    trim ('\'' :: (inner ++ ['\''])) = '\'' :: (inner ++ ['\'']) := by
  have hspace : isSpace '\'' = false := by decide
  refine (isTrimmed_iff _).mpr ⟨fun c hc => ?_, fun c hc => ?_⟩
  · rwa [← Option.some.inj hc]
  · rw [← List.cons_append, List.getLast?_concat] at hc
    rwa [← Option.some.inj hc]

/-- A quoted initial value in front of a description. -/
theorem map_parts?_quotedInitial (hfeed : '\n' ∉ text) :
    ((seq (part .initial quotedPattern) closeTail).parts?
      previous text).map Declaration.ofParts = (quotedInitial? text).map initialised := by
  rw [parts?_seq_part rfl, takenBefore?_quotedPattern, Option.map_map]
  fun_cases quotedInitial? text with
  | case1 rest =>
    rw [after?, if_pos (by decide), after?, Option.bind_some]
    cases hquoted : takeQuoted? rest with
    | none => rfl
    | some found =>
      obtain ⟨inner, tail⟩ := found
      have hline : '\n' ∉ tail := fun hmem =>
        hfeed (List.mem_cons_of_mem _ ((suffix_of_takeQuoted? hquoted).subset hmem))
      have hclosed : (closeTail.parts? (some '\'') tail).map Declaration.ofParts =
          (closed? tail).map described := map_parts?_closed hline
      have hvalue := map_ofParts_initial ('\'' :: (inner ++ ['\''])) hclosed
      rw [trim_quoted] at hvalue
      simp only [Option.bind_some, Option.map_map]
      exact hvalue
  | case2 =>
    rename_i hquote
    have hnone : after? ['\''] text = none :=
      Option.eq_none_iff_forall_ne_some.mpr fun rest h => hquote rest (after?_eq_some_iff.mp h)
    rw [hnone]
    rfl

/-- A bare initial value in front of a description. -/
theorem map_parts?_bareInitial (hfeed : '\n' ∉ text) :
    ((seq (part .initial barePattern) closeTail).parts?
      previous text).map Declaration.ofParts = (bareInitial? text).map initialised := by
  have hblank (c : Char) (hc : isBlank c = true) : decide (c ∉ [';', '\r', '\n']) = true := by
    rcases eq_of_isBlank hc with rfl | rfl <;> decide
  have hreject (previous : Option Char) (c : Char) (rest : List Char)
      (hc : decide (c ∉ [';', '\r', '\n']) = true) :
      (seq (char ';') descriptionTail).parts? previous (c :: rest) = none := by
    rw [parts?_seq_char_cons, if_neg]
    rintro rfl
    simp at hc
  have hpart : ∀ c ∈ text, decide (c ∉ [';', '\r', '\n']) = (c != ';' && c != '\r') := by
    intro c hc
    have hne : c ≠ '\n' := fun heq => hfeed (heq ▸ hc)
    rw [Bool.eq_iff_iff]
    simp [hne]
  obtain ⟨htake, hdrop⟩ := takeWhile_congr hpart
  have hline : '\n' ∉ text.dropWhile fun c => c != ';' && c != '\r' := fun hmem =>
    hfeed ((List.dropWhile_sublist _).subset hmem)
  have hclosed : closed? (text.dropWhile fun c => c != ';' && c != '\r') =
      (after? [';'] (text.dropWhile fun c => c != ';' && c != '\r')).bind description? := by
    rw [closed?]
    cases hrest : text.dropWhile fun c => c != ';' && c != '\r' with
    | nil => rfl
    | cons c rest =>
      have hc : (c != ';' && c != '\r') = false :=
        @head_dropWhile (fun c => c != ';' && c != '\r') text c (by rw [hrest]; rfl)
      rw [List.dropWhile_cons_of_neg]
      intro hblank
      rcases eq_of_isBlank hblank with rfl | rfl <;> simp at hc
  have htrim : trim (dropEndWhile isBlank (text.takeWhile fun c => c != ';' && c != '\r')) =
      trim (text.takeWhile fun c => c != ';' && c != '\r') := trim_append_dropEndWhile_isBlank [] _
  rw [barePattern, closeTail, blanks, parts?_seq_part rfl, takenBefore?_parts?_run_blanks hblank hreject,
    Option.map_map, Option.map_map, htake, hdrop, bareInitial?, hclosed, Option.map_map, ← htrim]
  exact map_ofParts_initial _ (map_parts?_semicolon hline)

/-- An initial value behind blanks, in front of a description. -/
theorem map_parts?_initial (hfeed : '\n' ∉ text) :
    ((seq blanks (seq (part .initial (or quotedPattern barePattern)) closeTail)).parts?
      previous text).map Declaration.ofParts = (initial? text).map initialised := by
  have hinitial : initial? text = (quotedInitial? (text.dropWhile isBlank)).or
      (bareInitial? (text.dropWhile isBlank)) := by
    rw [initial?]
    cases quotedInitial? (text.dropWhile isBlank) <;> rfl
  rw [hinitial]
  refine map_parts?_behind_blanks
    (fun text => ((quotedInitial? text).or (bareInitial? text)).map initialised) hfeed
    (fun hfeed => ?_) fun c rest hc hnone => ?_
  · rw [parts?_seq_part_or, Option.map_or, map_parts?_quotedInitial hfeed,
      map_parts?_bareInitial hfeed, ← Option.map_or]
  · have hquoted : quotedInitial? (c :: rest) = none := by
      rcases eq_of_isBlank hc with rfl | rfl <;> rfl
    have hdrop : (c :: rest).dropWhile (fun c => c != ';' && c != '\r') =
        rest.dropWhile fun c => c != ';' && c != '\r' :=
      List.dropWhile_cons_of_pos (by rcases eq_of_isBlank hc with rfl | rfl <;> decide)
    rw [Option.map_eq_none_iff, Option.or_eq_none_iff, bareInitial?, Option.map_eq_none_iff] at hnone
    rw [hquoted, Option.none_or, bareInitial?, hdrop, hnone.2]
    rfl

end PlcTypes.StructuredText
