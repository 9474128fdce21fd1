import PlcTypes.Proofs.StructuredText.InitialPattern
import PlcTypes.Proofs.Text.LineEnding

/-!
# Declarations on lines with carriage returns

A carriage return at the end of a line declares what the line declares without it: it ends names, types
and bare initial values as the end of the line does, and it is dropped behind the semicolon and behind
comments. So a text declares the same members whatever its line ends.
-/

namespace PlcTypes.StructuredText

open Text

variable {text line : List Char}

/-- A carriage return at the end of a line without any is dropped. -/
theorem dropReturn_append_return (h : '\r' ∉ text) : dropReturn (text ++ ['\r']) = dropReturn text := by
  have hlast : ∀ c ∈ text.getLast?, c ≠ '\r' := fun c hc heq =>
    h (heq ▸ List.mem_of_getLast? hc)
  rw [dropReturn_append ['\r'] hlast, dropReturn_of_notMem h, dropReturn, List.append_nil]

/-- A carriage return at the end of a line ends a run that it does not belong to. -/
theorem run_append_return {p : Char → Bool} (hp : p '\r' = false) (text : List Char) :
    (text ++ ['\r']).takeWhile p = text.takeWhile p ∧
      (text ++ ['\r']).dropWhile p = text.dropWhile p ++ ['\r'] := by
  induction text with
  | nil => simp [hp]
  | cons c text ih =>
    by_cases hc : p c = true
    · simp [hc, ih.1, ih.2]
    · simp [hc]

/-- A word without a carriage return stands at the front of a line in front of one too. -/
theorem after?_append_return {word : List Char} (hword : '\r' ∉ word) (text : List Char) :
    after? word (text ++ ['\r']) = (after? word text).map (· ++ ['\r']) := by
  induction word generalizing text with
  | nil => rfl
  | cons w word ih =>
    rw [List.mem_cons, not_or] at hword
    cases text with
    | nil => exact after?_cons_of_ne word [] (Ne.symm hword.1)
    | cons c text =>
      rw [List.cons_append, after?, after?]
      split
      · exact ih hword.2 text
      · rfl

/-- An identifier is read in front of a carriage return too. -/
theorem takeIdentifier?_append_return (text : List Char) : takeIdentifier? (text ++ ['\r']) =
    (takeIdentifier? text).map fun (name, rest) => (name, rest ++ ['\r']) := by
  cases text with
  | nil => rfl
  | cons c text =>
    have hrun := run_append_return (show isNameChar '\r' = false by decide) text
    rw [List.cons_append, takeIdentifier?, takeIdentifier?, hrun.1, hrun.2]
    split <;> rfl

/-- Two characters in front of a carriage return are those of the line. -/
theorem exists_of_append_return {c d : Char} {tail : List Char} (hd : d ≠ '\r')
    (h : text ++ ['\r'] = c :: d :: tail) : ∃ tail, text = c :: d :: tail := by
  rcases text with _ | ⟨first, _ | ⟨second, others⟩⟩
  · simp at h
  · exact absurd (List.cons.inj (List.cons.inj h).2).1.symm hd
  · obtain ⟨rfl, rfl, -⟩ : first = c ∧ second = d ∧ others ++ ['\r'] = tail := by simpa using h
    exact ⟨others, rfl⟩

/-- A description is read in front of a carriage return too. -/
theorem description?_append_return (h : '\r' ∉ text) :
    description? (text ++ ['\r']) = description? text := by
  have hrest : '\r' ∉ text.dropWhile isBlank := fun hmem =>
    h ((List.dropWhile_sublist isBlank).subset hmem)
  rw [description?_eq, description?_eq, (run_append_return (by decide) text).2]
  generalize text.dropWhile isBlank = rest at hrest
  have hblank : '\r' ∉ rest.dropWhile isBlank := fun hmem =>
    hrest ((List.dropWhile_sublist isBlank).subset hmem)
  -- a line that starts no comment starts none in front of the carriage return
  have hother (hline : ∀ comment, rest = '/' :: '/' :: comment → False)
      (hblock : ∀ comment, rest = '(' :: '*' :: comment → False) : commentDescription? (rest ++ ['\r']) =
        if dropReturn (rest.dropWhile isBlank) = [] then some [] else none := by
    rw [commentDescription?, (run_append_return (by decide) rest).2, dropReturn_append_return hblank]
    · intro comment heq
      obtain ⟨tail, htail⟩ := exists_of_append_return (by decide) heq
      exact hline tail htail
    · intro comment heq
      obtain ⟨tail, htail⟩ := exists_of_append_return (by decide) heq
      exact hblock tail htail
  fun_cases commentDescription? rest with
  | case1 comment =>
    have hcomment : '\r' ∉ comment := fun hmem => hrest (by simp [hmem])
    simp only [List.cons_append, commentDescription?, lineDescription?, dropReturn_append_return hcomment]
  | case2 comment =>
    have hcomment : '\r' ∉ comment := fun hmem => hrest (by simp [hmem])
    simp only [List.cons_append, commentDescription?, blockDescription?, dropReturn_append_return hcomment]
  | case3 =>
    rename_i hline hblock hnil
    rw [hother hline hblock, if_pos hnil]
  | case4 =>
    rename_i hline hblock hnil
    rw [hother hline hblock, if_neg hnil]

/-- A literal is scanned in front of a carriage return too. -/
theorem takeQuoted?_append_return (text : List Char) : takeQuoted? (text ++ ['\r']) =
    (takeQuoted? text).map fun (inner, tail) => (inner, tail ++ ['\r']) := by
  have hplain {c : Char} {rest : List Char} (hend : c = '$' → rest = [] → False)
      (hescape : ∀ d others, c = '$' → rest = d :: others → False) : c ≠ '$' := by
    rintro rfl
    cases rest with
    | nil => exact hend rfl rfl
    | cons d others => exact hescape d others rfl rfl
  fun_induction takeQuoted? text with
  | case1 => rfl
  | case2 => rfl
  | case3 rest => simp [takeQuoted?]
  | case4 c rest hc ih =>
    rw [List.cons_append, List.cons_append, takeQuoted?, if_neg hc, ih]
    cases takeQuoted? rest <;> rfl
  | case5 rest => simp [takeQuoted?]
  | case6 c rest hend hescape hquote hstop =>
    have hc := hplain hend hescape
    rw [List.cons_append, takeQuoted?, if_neg hquote, if_pos hstop]
    · rfl
    · exact fun hdollar => absurd hdollar hc
    · exact fun _ _ hdollar => absurd hdollar hc
  | case7 c rest hend hescape hquote hstop ih =>
    have hc := hplain hend hescape
    rw [List.cons_append, takeQuoted?, if_neg hquote, if_neg hstop, ih]
    · cases takeQuoted? rest <;> rfl
    · exact fun hdollar => absurd hdollar hc
    · exact fun _ _ hdollar => absurd hdollar hc

/-- What follows a semicolon is read in front of a carriage return too. -/
theorem closed?_append_return (h : '\r' ∉ text) : closed? (text ++ ['\r']) = closed? text := by
  rw [closed?, closed?, (run_append_return (by decide) text).2, after?_append_return (by decide)]
  cases hstart : after? [';'] (text.dropWhile isBlank) with
  | none => rfl
  | some rest =>
    have hrest : '\r' ∉ rest := fun hmem => h <| (List.dropWhile_sublist isBlank).subset <| by
      rw [after?_eq_some_iff.mp hstart]
      exact List.mem_append_right _ hmem
    exact description?_append_return hrest

/-- A quoted initial value is read in front of a carriage return too. -/
theorem quotedInitial?_append_return (h : '\r' ∉ text) :
    quotedInitial? (text ++ ['\r']) = quotedInitial? text := by
  fun_cases quotedInitial? text with
  | case1 rest =>
    rw [List.cons_append, quotedInitial?, takeQuoted?_append_return]
    cases hquoted : takeQuoted? rest with
    | none => rfl
    | some parts =>
      obtain ⟨inner, tail⟩ := parts
      have htail : '\r' ∉ tail := fun hmem =>
        h (List.mem_cons_of_mem _ ((suffix_of_takeQuoted? hquoted).subset hmem))
      simp only [Option.map_some, Option.bind_some, closed?_append_return htail]
  | case2 =>
    rename_i hquote
    rw [quotedInitial?]
    intro rest heq
    cases text with
    | nil => simp at heq
    | cons c text => exact hquote text (by rw [(List.cons.inj heq).1])

/-- A bare initial value is read in front of a carriage return too. -/
theorem bareInitial?_append_return (h : '\r' ∉ text) :
    bareInitial? (text ++ ['\r']) = bareInitial? text := by
  have hrun := run_append_return (p := fun c => c != ';' && c != '\r') (by decide) text
  have hrest : '\r' ∉ text.dropWhile fun c => c != ';' && c != '\r' := fun hmem =>
    h ((List.dropWhile_sublist _).subset hmem)
  rw [bareInitial?, bareInitial?]
  simp only [hrun.1, hrun.2, closed?_append_return hrest]

/-- An initial value is read in front of a carriage return too. -/
theorem initial?_append_return (h : '\r' ∉ text) : initial? (text ++ ['\r']) = initial? text := by
  have hrest : '\r' ∉ text.dropWhile isBlank := fun hmem =>
    h ((List.dropWhile_sublist isBlank).subset hmem)
  rw [initial?, initial?]
  simp only [(run_append_return (show isBlank '\r' = false by decide) text).2,
    quotedInitial?_append_return hrest, bareInitial?_append_return hrest]

namespace Declaration

/-- A line declares the same in front of a carriage return. -/
theorem ofLine?_append_return (h : '\r' ∉ line) : ofLine? (line ++ ['\r']) = ofLine? line := by
  have hcolon : '\r' ∉ [':'] := by decide
  rw [ofLine?, ofLine?, (run_append_return (by decide) line).2, takeIdentifier?_append_return]
  cases hname : takeIdentifier? (line.dropWhile isBlank) with
  | none => rfl
  | some parts =>
    obtain ⟨name, behind⟩ := parts
    have hblank := (run_append_return (show isBlank '\r' = false by decide) behind).2
    simp only [Option.map_some, bind, Option.bind_some, hblank, after?_append_return hcolon]
    cases htype : after? [':'] (behind.dropWhile isBlank) with
    | none => rfl
    | some text =>
      have htext : '\r' ∉ text := fun hmem => by
        have hbehind : '\r' ∈ behind := (List.dropWhile_sublist isBlank).subset <| by
          rw [after?_eq_some_iff.mp htype]
          exact List.mem_append_right _ hmem
        have hline : '\r' ∈ line.dropWhile isBlank := by
          rw [(takeIdentifier?_spec hname).2]
          exact List.mem_append_right _ hbehind
        exact h ((List.dropWhile_sublist isBlank).subset hline)
      have hrun := run_append_return (show isTypeChar '\r' = false by decide) text
      have hrest : '\r' ∉ text.dropWhile isTypeChar := fun hmem =>
        htext ((List.dropWhile_sublist _).subset hmem)
      simp only [Option.map_some, Option.bind_some, hrun.1, hrun.2]
      generalize text.takeWhile isTypeChar = type
      generalize text.dropWhile isTypeChar = rest at hrest
      rcases type with _ | ⟨c, type⟩
      · rfl
      rcases rest with _ | ⟨d, rest⟩
      · rfl
      rw [List.mem_cons, not_or] at hrest
      by_cases hsemicolon : d = ';'
      · subst hsemicolon
        simp only [List.cons_append, description?_append_return hrest.2]
      by_cases hassign : d = ':'
      · subst hassign
        rcases rest with _ | ⟨e, rest⟩
        · rfl
        rw [List.mem_cons, not_or] at hrest
        by_cases hequal : e = '='
        · subst hequal
          simp only [List.cons_append, initial?_append_return hrest.2.2]
        · simp [hequal]
      · simp [hsemicolon, hassign]

/-- A text declares the same whatever its line ends. -/
theorem all_withReturns (h : '\r' ∉ text) : all (withReturns text) = all text := by
  induction hlength : text.length using Nat.strong_induction_on generalizing text with
  | h length ih =>
    by_cases hfeed : '\n' ∈ text
    · -- the first line and the lines behind it
      obtain ⟨line, rest, rfl, hline⟩ := List.eq_append_cons_of_mem hfeed
      simp only [List.mem_append, List.mem_cons, not_or] at h
      have hreturn : '\n' ∉ line ++ ['\r'] := by simp [hline]
      have hsplit : withReturns (line ++ '\n' :: rest) = (line ++ ['\r']) ++ '\n' :: withReturns rest := by
        rw [withReturns_append, withReturns_of_notMem hline, withReturns_lineFeed, List.append_assoc,
          List.singleton_append]
      have hshorter : rest.length < length := by
        rw [← hlength, List.length_append, List.length_cons]
        omega
      rw [hsplit, all_append_lineFeed, all_append_lineFeed, all_of_oneLine hreturn, all_of_oneLine hline,
        ofLine?_append_return h.1, ih _ hshorter h.2.2 rfl]
    · rw [withReturns_of_notMem hfeed]

end Declaration

/-- The members of a text are the same whatever its line ends. -/
theorem Dialect.readMembers_withReturns (dialect : Dialect) (h : '\r' ∉ text) :
    dialect.readMembers (withReturns text) = dialect.readMembers text := by
  rw [readMembers, readMembers, Declaration.all_withReturns h]

section Comments

/-- What follows the end of a type declaration follows it whatever the line ends. -/
theorem afterEnd?_withReturns (text : List Char) :
    afterEnd? (withReturns text) = (afterEnd? text).map withReturns := by
  have hrecognise (previous : Option Char) (text : List Char) :
      endOfType? previous (withReturns text) =
        (endOfType? previous text).map fun (found, rest) => (id found, withReturns rest) := by
    rw [endOfType?, endOfType?, keywordAfter?_withReturns (by decide) (by decide)]
    cases keywordAfter? previous "END_TYPE".toList text with
    | none => rfl
    | some rest =>
      simp only [Option.map_some, Option.bind_some, startsOutsideWord_withReturns]
      split <;> rfl
  have hstart : ∀ c ∈ ['\r', '\n'], ∀ previous text, endOfType? previous (c :: text) = none := by
    intro c hc previous text
    rw [endOfType?, keywordAfter?_lineEnd (by decide) (by decide) (by decide) hc]
    rfl
  rw [afterEnd?, afterEnd?, find?_withReturns hrecognise hstart]
  cases find? endOfType? none text <;> rfl

/-- The first line comment is the same whatever the line ends. -/
theorem firstLine?_withReturns (text : List Char) : firstLine? (withReturns text) = firstLine? text := by
  rw [firstLine?, firstLine?, cut?_withReturns (by decide) (by decide) (by decide)]
  cases cut? ['/', '/'] text with
  | none => rfl
  | some parts =>
    simp only [Option.map_some]
    rw [takeWhile_withReturns (by decide) (by decide)]

/-- The first block comment keeps the line ends of the text. -/
theorem firstBlock?_withReturns (text : List Char) :
    firstBlock? (withReturns text) = (firstBlock? text).map withReturns := by
  rw [firstBlock?, firstBlock?, between?_withReturns (by decide) (by decide) (by decide)]
  cases between? ['(', '*'] ['*', ')'] text with
  | none => rfl
  | some inner => simp only [Option.map_some, trim_withReturns]

end Comments

end PlcTypes.StructuredText
