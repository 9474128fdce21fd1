import PlcTypes.Proofs.StructuredText.DeclarationPattern

/-!
# The description behind a declaration

The semicolon of a declaration is followed by nothing, by a comment up to the end of the line or by a
comment with an end of its own. A comment of the second kind may have the characters of its end in it:
it reaches up to the last ones, since nothing but blanks and a carriage return may follow it.
-/

namespace PlcTypes.StructuredText

open Text Pattern

variable {previous : Option Char} {text : List Char}

/-- A declaration with no more than a description. -/
def described (description : List Char) : Declaration := ⟨[], [], none, description⟩

/-- The return at the end of a line stands behind the characters up to the first return. -/
theorem dropReturn_eq_append (text : List Char) :
    dropReturn text = text.takeWhile (· ∉ ['\r', '\n']) ++
      dropReturn (text.dropWhile (· ∉ ['\r', '\n'])) := by
  have hlast : ∀ c ∈ (text.takeWhile (· ∉ ['\r', '\n'])).getLast?, c ≠ '\r' := by
    rintro c hc rfl
    exact absurd (List.mem_takeWhile_imp (List.mem_of_getLast? hc)) (by decide)
  rw [← dropReturn_append _ hlast, List.takeWhile_append_dropWhile]

/-- A line has a return before its end if and only if the characters up to its first return do not
reach to the end. -/
theorem return_mem_dropReturn_iff (hfeed : '\n' ∉ text) :
    '\r' ∈ dropReturn text ↔ dropReturn (text.dropWhile (· ∉ ['\r', '\n'])) ≠ [] := by
  rw [dropReturn_eq_append]
  have hrun : '\r' ∉ text.takeWhile (· ∉ ['\r', '\n']) := fun hmem =>
    absurd (List.mem_takeWhile_imp hmem) (by decide)
  cases htail : text.dropWhile (· ∉ ['\r', '\n']) with
  | nil => simpa [dropReturn] using hrun
  | cons c rest =>
    have hmem : c ∈ text := (List.dropWhile_sublist _).subset (htail ▸ List.mem_cons_self)
    have hstop : decide (c ∉ ['\r', '\n']) = false :=
      head_dropWhile (by rw [htail, List.head?_cons])
    obtain rfl : c = '\r' := by
      have hne : c ≠ '\n' := fun heq => hfeed (heq ▸ hmem)
      simpa [hne] using hstop
    cases rest with
    | nil => simpa [dropReturn] using hrun
    | cons d rest => simp [dropReturn]

/-- The text of a comment up to the end of the line. -/
theorem parts?_lineComment (hfeed : '\n' ∉ text) :
    (seq (part .lineComment (many false (one (· ∉ ['\r', '\n'])))) (seq blanks lineTail)).parts?
        previous text =
      if '\r' ∈ dropReturn text then none
      else some [(.lineComment, dropEndWhile isBlank (dropReturn text))] := by
  have hreject (previous : Option Char) (c : Char) (rest : List Char)
      (hc : decide (c ∉ ['\r', '\n']) = true) : lineTail.parts? previous (c :: rest) = none := by
    have hne : c ≠ '\r' ∧ c ≠ '\n' := by simpa using hc
    exact parts?_cons_eq_none (by simp [lineTail, mayTake, all, Pattern.optional, char, hne.1])
      (by simp [lineTail, maySkip, all, Pattern.optional, char, hne.2])
  have hblank (c : Char) (hc : isBlank c = true) : decide (c ∉ ['\r', '\n']) = true := by
    rcases eq_of_isBlank hc with rfl | rfl <;> decide
  rw [blanks, parts?_seq_part rfl, takenBefore?_parts?_run_blanks hblank hreject, Option.map_map,
    parts?_lineTail fun h => hfeed ((List.dropWhile_sublist _).subset h)]
  by_cases hnil : dropReturn (text.dropWhile (· ∉ ['\r', '\n'])) = []
  · rw [if_pos hnil, if_neg fun h => (return_mem_dropReturn_iff hfeed).mp h hnil,
      dropReturn_eq_append text, hnil, List.append_nil]
    rfl
  · rw [if_neg hnil, if_pos ((return_mem_dropReturn_iff hfeed).mpr hnil)]
    rfl

/-- The description in a comment up to the end of the line. -/
def lineDescription? (text : List Char) : Option (List Char) :=
  if '\r' ∈ dropReturn text then none else some (trim (dropReturn text))

/-- A comment up to the end of the line is trimmed. -/
theorem map_parts?_lineComment (hfeed : '\n' ∉ text) :
    ((seq blanks (seq (part .lineComment (many false (one (· ∉ ['\r', '\n']))))
      (seq blanks lineTail))).parts? previous text).map Declaration.ofParts =
      (lineDescription? text).map described := by
  refine map_parts?_before_blanks (fun text => (lineDescription? text).map described) hfeed
    (fun hfeed => ?_) fun c rest hc => Or.inr ?_
  · rw [parts?_lineComment hfeed, lineDescription?]
    split
    · rfl
    · exact congrArg (fun description => some (described description))
        (trim_append_dropEndWhile_isBlank [] _)
  · have hne : c ≠ '\r' := by rcases eq_of_isBlank hc with rfl | rfl <;> decide
    have hdrop : dropReturn ([c] ++ rest) = [c] ++ dropReturn rest :=
      dropReturn_append rest (by simpa using hne)
    rw [List.singleton_append, List.singleton_append] at hdrop
    simp only [lineDescription?, hdrop, List.mem_cons, Ne.symm hne, false_or,
      trim_cons_of_isBlank hc]

/-- The description in a comment with an end of its own: it reaches up to the end of the line. -/
def blockDescription? (text : List Char) : Option (List Char) :=
  match (dropEndWhile isBlank (dropReturn text)).reverse with
  | ')' :: '*' :: reversed => some (trim reversed.reverse)
  | _ => none

/-- A comment with an end of its own ends where nothing but blanks and a carriage return follow. -/
theorem blockDescription?_eq_some_iff {description : List Char} :
    blockDescription? text = some description ↔ ∃ inner tail, text = inner ++ '*' :: ')' :: tail ∧
      dropReturn (tail.dropWhile isBlank) = [] ∧ description = trim inner := by
  constructor
  · intro h
    rw [blockDescription?] at h
    split at h
    · rename_i reversed hreverse
      obtain ⟨blank, hsplit, hblank⟩ := exists_dropEndWhile_append isBlank (dropReturn text)
      obtain ⟨tail, htext, htail⟩ := exists_dropReturn_append text
      rw [List.reverse_eq_cons_iff, List.reverse_cons, List.append_assoc] at hreverse
      refine ⟨reversed.reverse, blank ++ tail, ?_, ?_, (Option.some.inj h).symm⟩
      · conv_lhs => rw [htext, hsplit, hreverse]
        simp
      · have hdrop : tail.dropWhile isBlank = tail := by
          rcases dropReturn_eq_nil_iff.mp htail with rfl | rfl <;> rfl
        rw [List.dropWhile_append_of_pos hblank, hdrop, htail]
    · simp at h
  · rintro ⟨inner, tail, rfl, htail, rfl⟩
    have hreturn : ∀ c ∈ (tail.takeWhile isBlank).getLast?, c ≠ '\r' := by
      intro c hc
      have hblank := List.mem_takeWhile_imp (List.mem_of_getLast? hc)
      rcases eq_of_isBlank hblank with rfl | rfl <;> decide
    have hblanks : dropReturn tail = tail.takeWhile isBlank := by
      conv_lhs => rw [← List.takeWhile_append_dropWhile (p := isBlank) (l := tail)]
      rw [dropReturn_append _ hreturn, htail, List.append_nil]
    have hdrop : dropReturn (inner ++ '*' :: ')' :: tail) =
        inner ++ ['*', ')'] ++ tail.takeWhile isBlank := by
      rw [← hblanks, ← dropReturn_append tail (by simp)]
      simp
    have hend : dropEndWhile isBlank (inner ++ ['*', ')']) = inner ++ ['*', ')'] := by
      have hlast : ∀ c ∈ (inner ++ ['*', ')']).getLast?, isBlank c = false := by simp [isBlank]
      simpa [dropEndWhile] using dropEndWhile_append_of_last [] hlast
    rw [blockDescription?, hdrop, dropEndWhile_append_of_all _ fun c hc => List.mem_takeWhile_imp hc,
      hend, List.reverse_append]
    simp

/-- What closes a comment, and the rest of the line. -/
def blockTail : Pattern DeclarationPart := seq blanks (seq (char '*') (seq (char ')') (seq blanks lineTail)))

/-- A comment is closed at the end of the line. -/
theorem parts?_blockTail_eq_some_iff (hfeed : '\n' ∉ text) {parts : List (DeclarationPart × List Char)} :
    blockTail.parts? previous text = some parts ↔
      ∃ tail, text.dropWhile isBlank = '*' :: ')' :: tail ∧
        dropReturn (tail.dropWhile isBlank) = [] ∧ parts = [] := by
  rw [blockTail, parts?_seq_blanks]
  · have hline {tail : List Char} (hstar : text.dropWhile isBlank = '*' :: ')' :: tail) :
        '\n' ∉ tail := fun hmem => hfeed
      ((List.dropWhile_sublist isBlank).subset (hstar ▸ by simp [hmem]))
    simp only [parts?_seq_char_eq_some_iff]
    constructor
    · rintro ⟨_, hstar, tail, rfl, htail⟩
      rw [parts?_blanks_lineTail (hline hstar), Option.ite_none_right_eq_some] at htail
      exact ⟨tail, hstar, htail.1, (Option.some.inj htail.2).symm⟩
    · rintro ⟨tail, hstar, htail, rfl⟩
      refine ⟨_, hstar, tail, rfl, ?_⟩
      rw [parts?_blanks_lineTail (hline hstar), if_pos htail]
  · intro c hc
    rcases eq_of_isBlank hc with rfl | rfl <;> decide

/-- A comment with an end of its own is trimmed. -/
theorem map_parts?_blockComment (hfeed : '\n' ∉ text) :
    ((seq blanks (seq (part .blockComment (many false (one (· != '\n')))) blockTail)).parts?
      previous text).map Declaration.ofParts = (blockDescription? text).map described := by
  refine map_parts?_before_blanks (fun text => (blockDescription? text).map described) hfeed
    (fun hfeed => ?_) fun c rest hc => ?_
  · rename_i previous text
    rw [parts?_seq_part rfl, Option.map_map]
    cases h : (many false (one (· != '\n')) : Pattern DeclarationPart).takenBefore?
      blockTail.parts? previous text with
    | none =>
      cases hblock : blockDescription? text with
      | none => rfl
      | some description =>
        obtain ⟨inner, tail, rfl, htail, rfl⟩ := blockDescription?_eq_some_iff.mp hblock
        have hline : '\n' ∉ inner ∧ '\n' ∉ '*' :: ')' :: tail := by
          rwa [List.mem_append, not_or] at hfeed
        refine absurd h (takenBefore?_run_ne_none (fun c hc => ?_) ?_)
        · exact bne_iff_ne.mpr fun heq => hline.1 (heq ▸ hc)
        · rw [(parts?_blockTail_eq_some_iff hline.2).mpr ⟨tail, rfl, htail, rfl⟩]
          exact Option.some_ne_none _
    | some found =>
      obtain ⟨taken, parts⟩ := found
      obtain ⟨rest, rfl, hrest⟩ := exists_of_takenBefore?_eq_some h
      have hline : '\n' ∉ rest := fun hmem => hfeed (List.mem_append_right taken hmem)
      obtain ⟨tail, hstar, htail, rfl⟩ := (parts?_blockTail_eq_some_iff hline).mp hrest
      have hblock : blockDescription? (taken ++ rest) = some (trim taken) := by
        refine blockDescription?_eq_some_iff.mpr ⟨taken ++ rest.takeWhile isBlank, tail, ?_, htail, ?_⟩
        · rw [List.append_assoc, ← hstar, List.takeWhile_append_dropWhile]
        · exact (trim_append_right taken fun c hc =>
            isSpace_of_isBlank (List.mem_takeWhile_imp hc)).symm
      rw [hblock]
      rfl
  · cases h : blockDescription? rest with
    | none => exact Or.inl rfl
    | some description =>
      obtain ⟨inner, tail, rfl, htail, rfl⟩ := blockDescription?_eq_some_iff.mp h
      refine Or.inr (congrArg (Option.map described) ?_)
      rw [← trim_cons_of_isBlank hc]
      exact blockDescription?_eq_some_iff.mpr ⟨c :: inner, tail, rfl, htail, rfl⟩

/-- The description on the part of a line behind the semicolon and the blanks there. -/
def commentDescription? (text : List Char) : Option (List Char) :=
  match text with
  | '/' :: '/' :: comment => lineDescription? comment
  | '(' :: '*' :: comment => blockDescription? comment
  | rest => if dropReturn (rest.dropWhile isBlank) = [] then some [] else none

/-- There is no description if there is no more than blanks and a carriage return. -/
theorem commentDescription?_of_blank (h : dropReturn (text.dropWhile isBlank) = []) :
    commentDescription? text = some [] := by
  fun_cases commentDescription? text with
  | case1 comment | case2 comment =>
    rw [List.dropWhile_cons_of_neg (by decide), dropReturn_eq_nil_iff] at h
    simp at h
  | case3 => rfl
  | case4 => contradiction

/-- A description stands behind all blanks. -/
theorem description?_eq (text : List Char) :
    description? text = commentDescription? (text.dropWhile isBlank) := by
  have hblanks : (text.dropWhile isBlank).dropWhile isBlank = text.dropWhile isBlank :=
    List.dropWhile_idempotent isBlank text
  rw [description?]
  generalize text.dropWhile isBlank = rest at hblanks ⊢
  split
  · rfl
  · rfl
  · rename_i hline hblock
    rw [commentDescription?, hblanks]
    · exact hline
    · exact hblock

/-- An optional comment is one of either kind. -/
theorem map_parts?_comment (hfeed : '\n' ∉ text) :
    ((seq (optional (or lineCommentPattern blockCommentPattern)) (seq blanks lineTail)).parts?
      previous text).map Declaration.ofParts = (commentDescription? text).map described := by
  rw [parts?_seq_optional, parts?_seq_or, lineCommentPattern, blockCommentPattern, parts?_seq_all,
    parts?_seq_all, parts?_blanks_lineTail hfeed]
  simp only [List.foldr]
  have hnone {c d : Char} {q : Pattern DeclarationPart} (htext : ∀ rest, text ≠ c :: d :: rest) :
      (seq (char c) (seq (char d) q)).parts? previous text = none := by
    refine Option.eq_none_iff_forall_ne_some.mpr fun parts hparts => ?_
    simp only [parts?_seq_char_eq_some_iff] at hparts
    obtain ⟨_, hc, rest, rfl, -⟩ := hparts
    exact htext rest hc
  fun_cases commentDescription? text with
  | case1 comment =>
    have hline : '\n' ∉ comment := fun hmem => hfeed (by simp [hmem])
    have hblank : dropReturn (('/' :: '/' :: comment).dropWhile isBlank) ≠ [] := by
      rw [List.dropWhile_cons_of_neg (by decide), Ne, dropReturn_eq_nil_iff]
      simp
    simp only [parts?_seq_char_cons, if_neg hblank, if_true, Char.reduceEq, if_false, Option.or_none]
    exact map_parts?_lineComment hline
  | case2 comment =>
    have hline : '\n' ∉ comment := fun hmem => hfeed (by simp [hmem])
    have hblank : dropReturn (('(' :: '*' :: comment).dropWhile isBlank) ≠ [] := by
      rw [List.dropWhile_cons_of_neg (by decide), Ne, dropReturn_eq_nil_iff]
      simp
    simp only [parts?_seq_char_cons, if_neg hblank, if_true, Char.reduceEq, if_false, Option.or_none,
      Option.none_or]
    exact map_parts?_blockComment hline
  | case3 =>
    rename_i hline hblock hnil
    rw [hnone hline, hnone hblock, if_pos hnil]
    rfl
  | case4 =>
    rename_i hline hblock hnil
    rw [hnone hline, hnone hblock, if_neg hnil]
    rfl

/-- A description behind a semicolon. -/
theorem map_parts?_descriptionTail (hfeed : '\n' ∉ text) :
    (descriptionTail.parts? previous text).map Declaration.ofParts =
      (description? text).map described := by
  rw [description?_eq]
  refine map_parts?_behind_blanks (fun text => (commentDescription? text).map described) hfeed
    map_parts?_comment fun c rest hc hnone => ?_
  have hblank : commentDescription? (c :: rest) =
      if dropReturn (rest.dropWhile isBlank) = [] then some [] else none := by
    rcases eq_of_isBlank hc with rfl | rfl <;> rfl
  rw [hblank, Option.map_eq_none_iff, ite_eq_right_iff]
  intro hnil
  rw [commentDescription?_of_blank hnil] at hnone
  simp at hnone

/-- A description behind the semicolon in front of a text. -/
theorem map_parts?_semicolon (hfeed : '\n' ∉ text) :
    ((seq (char ';') descriptionTail).parts? previous text).map Declaration.ofParts =
      ((after? [';'] text).bind description?).map described := by
  rw [map_parts?_char ';' _ hfeed map_parts?_descriptionTail, Option.map_bind]
  rfl

/-- A description behind blanks and a semicolon. -/
theorem map_parts?_closed (hfeed : '\n' ∉ text) :
    (closeTail.parts? previous text).map Declaration.ofParts = (closed? text).map described := by
  rw [closeTail, parts?_seq_blanks, map_parts?_semicolon fun hmem =>
    hfeed ((List.dropWhile_sublist _).subset hmem)]
  · rfl
  · intro c hc
    rcases eq_of_isBlank hc with rfl | rfl <;> decide

end PlcTypes.StructuredText
