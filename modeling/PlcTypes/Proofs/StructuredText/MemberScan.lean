import PlcTypes.Proofs.StructuredText.InitialPattern

/-!
# Members are scanned line by line

The pattern of a declaration finds on a line what the line is read as, up to white space around the
type, which reading the type drops. As the pattern starts at the start of a line and takes no line
feed, the members of a text are those of its lines, and an error is that of the first line with a
type that does not read.
-/

namespace PlcTypes.StructuredText

open Text Pattern

variable {previous : Option Char} {text : List Char}

/-- What is declared behind a type: an initial value and a description, or a description alone. -/
def behindType? (text : List Char) : Option Declaration :=
  match text with
  | ';' :: tail => (description? tail).map described
  | ':' :: '=' :: tail => (initial? tail).map initialised
  | _ => none

/-- What follows a type up to the end of the line. -/
theorem map_parts?_initialTail (hfeed : '\n' ∉ text) :
    (initialTail.parts? previous text).map Declaration.ofParts = behindType? text := by
  rw [initialTail, parts?_seq_optional, parts?_seq_all, Option.map_or, map_parts?_semicolon hfeed]
  simp only [List.foldr]
  fun_cases behindType? text with
  | case1 tail =>
    rw [parts?_seq_char_cons, if_neg (by decide)]
    rfl
  | case2 tail =>
    have hline : '\n' ∉ tail := fun hmem => hfeed (by simp [hmem])
    rw [parts?_seq_char_cons, if_pos rfl, parts?_seq_char_cons, if_pos rfl,
      ← closeTail, map_parts?_initial hline]
    exact Option.or_none
  | case3 =>
    rename_i hsemicolon hassign
    have hnone (q : Pattern DeclarationPart) :
        (seq (char ':') (seq (char '=') q)).parts? previous text = none := by
      refine Option.eq_none_iff_forall_ne_some.mpr fun parts hparts => ?_
      simp only [parts?_seq_char_eq_some_iff] at hparts
      obtain ⟨_, hc, rest, rfl, -⟩ := hparts
      exact hassign rest hc
    have hafter : after? [';'] text = none :=
      Option.eq_none_iff_forall_ne_some.mpr fun rest h => hsemicolon rest (after?_eq_some_iff.mp h)
    rw [hnone, hafter]
    rfl

/-- What is declared behind the colon: a type of at least one character and what follows it. -/
def typed? (text : List Char) : Option Declaration :=
  if text.takeWhile isTypeChar = [] then none
  else (behindType? (text.dropWhile isTypeChar)).map fun declaration =>
    { declaration with type := trim (text.takeWhile isTypeChar) }

/-- A type is as long as possible up to the blanks behind it. -/
theorem map_parts?_type (hfeed : '\n' ∉ text) :
    ((seq (part .type (seq (one isTypePart) (many false (one isTypePart))))
      (seq blanks initialTail)).parts? previous text).map (fun parts =>
        (Declaration.ofParts parts).trimmed) = typed? text := by
  have hpart : ∀ c ∈ text, isTypePart c = isTypeChar c := by
    intro c hc
    have hne : c ≠ '\n' := fun heq => hfeed (heq ▸ hc)
    rw [Bool.eq_iff_iff]
    simp [isTypePart, isTypeChar, hne, and_assoc]
  have hblank (c : Char) (hc : isBlank c = true) : isTypePart c = true := by
    rcases eq_of_isBlank hc with rfl | rfl <;> decide
  have hreject (previous : Option Char) (c : Char) (rest : List Char) (hc : isTypePart c = true) :
      initialTail.parts? previous (c :: rest) = none := by
    simp only [isTypePart, List.mem_cons, not_or, decide_eq_true_eq] at hc
    exact parts?_cons_eq_none
      (by simp [initialTail, mayTake, maySkip, all, Pattern.optional, char, hc.1, hc.2.1])
      (by simp [initialTail, maySkip, all, Pattern.optional, char])
  rw [parts?_seq_part rfl, Option.map_map, blanks]
  cases text with
  | nil =>
    rw [takenBefore?_seq_one_nil]
    rfl
  | cons c rest =>
    rw [List.forall_mem_cons] at hpart
    obtain ⟨htake, hdrop⟩ := takeWhile_congr hpart.2
    by_cases hc : isTypeChar c = true
    · have hline : '\n' ∉ rest.dropWhile isTypeChar := fun hmem =>
        hfeed (List.mem_cons_of_mem c ((List.dropWhile_sublist _).subset hmem))
      have htail (previous : Option Char) :
          (initialTail.parts? previous (rest.dropWhile isTypeChar)).map Declaration.ofParts =
            behindType? (rest.dropWhile isTypeChar) := map_parts?_initialTail hline
      rw [takenBefore?_seq_one_cons (hpart.1.trans hc),
        takenBefore?_parts?_run_blanks hblank hreject, htake, hdrop, typed?,
        List.takeWhile_cons_of_pos hc, List.dropWhile_cons_of_pos hc, if_neg (List.cons_ne_nil _ _),
        ← htail (lastOr (some c) (rest.takeWhile isTypeChar)),
        ← List.singleton_append, ← trim_append_dropEndWhile_isBlank]
      simp only [Option.map_map]
      rfl
    · rw [takenBefore?_seq_one_of_reject (by simpa [hpart.1] using hc), typed?,
        List.takeWhile_cons_of_neg hc, if_pos rfl]
      rfl

/-- A type behind blanks. -/
theorem map_parts?_typeTail (hfeed : '\n' ∉ text) :
    ((seq blanks (seq (part .type (seq (one isTypePart) (many false (one isTypePart))))
      (seq blanks initialTail))).parts? previous text).map (fun parts =>
        (Declaration.ofParts parts).trimmed) = typed? text := by
  refine map_parts?_before_blanks typed? hfeed map_parts?_type fun c rest hc => ?_
  have hchar : isTypeChar c = true := by rcases eq_of_isBlank hc with rfl | rfl <;> decide
  by_cases hrun : rest.takeWhile isTypeChar = []
  · exact Or.inl (if_pos hrun)
  · refine Or.inr ?_
    rw [typed?, typed?, List.takeWhile_cons_of_pos hchar, List.dropWhile_cons_of_pos hchar,
      if_neg (List.cons_ne_nil _ _), if_neg hrun, trim_cons_of_isBlank hc]

/-- What follows a name: a colon behind blanks and what is declared behind it. -/
theorem map_parts?_behindName (previous : Option Char) (hfeed : '\n' ∉ text) :
    ((seq blanks (seq (char ':') typeTail)).parts? previous text).map (fun parts =>
        (Declaration.ofParts parts).trimmed) =
      (after? [':'] (text.dropWhile isBlank)).bind typed? := by
  rw [parts?_seq_blanks]
  · exact map_parts?_char ':' typed? (fun hmem => hfeed ((List.dropWhile_sublist _).subset hmem))
      map_parts?_typeTail
  intro c hc
  rcases eq_of_isBlank hc with rfl | rfl <;> decide

/-- What follows a name does not start inside it. -/
theorem parts?_behindName_of_isNameChar {c : Char} (hc : isNameChar c = true) :
    (seq blanks (seq (char ':') typeTail)).parts? previous (c :: text) = none := by
  have hblank := isBlank_of_isSpace_eq_false (isSpace_of_isNameChar hc)
  have hcolon : c ≠ ':' := by
    rintro rfl
    simp [isNameChar] at hc
  exact parts?_cons_eq_none (by simp [blanks, mayTake, maySkip, char, hblank, hcolon])
    (by simp [blanks, maySkip, char])

/-- A name is taken as a whole if nothing goes on in front of one of its characters. -/
theorem takenBefore?_identifier {β : Type} {next : Option Char → List Char → Option β}
    (hreject : ∀ previous c rest, isNameChar c = true → next previous (c :: rest) = none) :
    (seq (one isNameStart) (many true (one isNameChar)) : Pattern DeclarationPart).takenBefore? next
        previous text =
      (takeIdentifier? text).bind fun found =>
        (next (lastOr previous found.1) found.2).map (found.1, ·) := by
  cases text with
  | nil =>
    rw [takenBefore?_seq_one_nil]
    rfl
  | cons c rest =>
    by_cases hc : isNameStart c = true
    · rw [takenBefore?_seq_one_cons hc,
        takenBefore?_run fun previous d rest _ hd _ => hreject previous d rest hd, takeIdentifier?,
        if_pos hc, Option.bind_some, Option.map_map, lastOr_cons]
      rfl
    · rw [takenBefore?_seq_one_of_reject (by simpa using hc), takeIdentifier?, if_neg hc]
      rfl

/-- What is declared on a line, with the type trimmed. -/
theorem map_trimmed_ofLine? (line : List Char) :
    (Declaration.ofLine? line).map Declaration.trimmed =
      (takeIdentifier? (line.dropWhile isBlank)).bind fun (name, rest) =>
        ((after? [':'] (rest.dropWhile isBlank)).bind typed?).map fun declaration =>
          { declaration with name } := by
  rw [Declaration.ofLine?]
  simp only [bind]
  cases takeIdentifier? (line.dropWhile isBlank) with
  | none => rfl
  | some found =>
    obtain ⟨name, rest⟩ := found
    rw [Option.bind_some, Option.bind_some]
    cases after? [':'] (rest.dropWhile isBlank) with
    | none => rfl
    | some text =>
      rw [Option.bind_some, Option.bind_some, typed?]
      generalize text.takeWhile isTypeChar = type
      generalize text.dropWhile isTypeChar = behind
      dsimp only
      split
      · rw [if_pos rfl]
        rfl
      · rename_i tail hne
        rw [if_neg hne, behindType?, Option.map_map, Option.map_map, Option.map_map]
        rfl
      · rename_i tail hne
        rw [if_neg hne, behindType?, Option.map_map, Option.map_map, Option.map_map]
        rfl
      · rename_i hnil hsemicolon hassign
        rw [if_neg hnil, behindType?]
        · rfl
        · exact hsemicolon
        · exact hassign

/-- On a line the pattern finds the parts of the declaration, up to white space around its type. -/
theorem map_parts?_declarationPattern (hfeed : '\n' ∉ text) :
    (declarationPattern.parts? none text).map (fun parts => (Declaration.ofParts parts).trimmed) =
      (Declaration.ofLine? text).map Declaration.trimmed := by
  have hpattern : declarationPattern.parts? none text =
      (seq blanks (seq (part .name (seq (one isNameStart) (many true (one isNameChar))))
        (seq blanks (seq (char ':') typeTail)))).parts? none text := parts?_seq_lineStart
  rw [hpattern, map_trimmed_ofLine?, parts?_seq_blanks, parts?_seq_part rfl, Option.map_map,
    takenBefore?_identifier fun _ _ _ hc => parts?_behindName_of_isNameChar hc]
  · cases hname : takeIdentifier? (text.dropWhile isBlank) with
    | none => rfl
    | some found =>
      obtain ⟨name, rest⟩ := found
      have hsplit : text.dropWhile isBlank = name ++ rest := (takeIdentifier?_spec hname).2
      have hline : '\n' ∉ rest := fun hmem => hfeed ((List.dropWhile_sublist isBlank).subset
        (hsplit ▸ List.mem_append_right name hmem))
      rw [Option.bind_some, Option.bind_some]
      dsimp only
      rw [← map_parts?_behindName (lastOr (lastOr none (text.takeWhile isBlank)) name) hline,
        Option.map_map, Option.map_map]
      rfl
  · intro c hc
    rcases eq_of_isBlank hc with rfl | rfl <;> decide

/-- What is found in a text is what the pattern matches on each line alone. -/
theorem scan_declarationPattern (text : List Char) : declarationPattern.scan none text =
    (lines text).filterMap (declarationPattern.parts? none) :=
  scan_lineStart rfl (fun _ => rfl) text

namespace Dialect

variable {dialect : Dialect}

/-- A declaration is read whatever white space surrounds its type. -/
theorem readDeclaration_trimmed (dialect : Dialect) (declaration : Declaration) :
    dialect.readDeclaration declaration.trimmed = dialect.readDeclaration declaration := by
  have htype : dialect.readType (trim declaration.type) = dialect.readType declaration.type :=
    DataType.decodeWith_congr_trim (isTrimmed_trim declaration.type)
  rw [readDeclaration, readDeclaration, Declaration.trimmed, htype]

/-- The only fault of a declaration is that of its type. -/
theorem readDeclaration_eq_error_iff {declaration : Declaration} {error : FormatError} :
    dialect.readDeclaration declaration = .error error ↔
      ∃ fault, dialect.readType declaration.type = .error fault ∧
        error = .badMember dialect.vendor (String.ofList declaration.name) (.bounds fault) := by
  rw [readDeclaration]
  cases dialect.readType declaration.type with
  | ok type => simp
  | error fault => simp [eq_comm]

/-- A declaration is read if its type is. -/
theorem exists_readDeclaration_iff {declaration : Declaration} :
    (∃ member, dialect.readDeclaration declaration = .ok member) ↔
      ∃ type, dialect.readType declaration.type = .ok type := by
  rw [readDeclaration]
  cases dialect.readType declaration.type <;> simp

/-- The members of a text are those on what the pattern matches in it. -/
theorem readMembers_eq_scan (dialect : Dialect) (text : List Char) :
    dialect.readMembers text =
      (declarationPattern.scan none text).mapM fun parts => dialect.readDeclaration (.ofParts parts) := by
  have hdeclared : (declarationPattern.scan none text).map (fun parts =>
      (Declaration.ofParts parts).trimmed) = (Declaration.all text).map Declaration.trimmed := by
    rw [scan_declarationPattern, Declaration.all, List.map_filterMap, List.map_filterMap]
    exact List.filterMap_congr fun line hline =>
      map_parts?_declarationPattern (lineFeed_notMem_of_mem_lines hline)
  have htrimmed := congrArg (List.mapM dialect.readDeclaration) hdeclared
  rw [List.mapM_map, List.mapM_map] at htrimmed
  simp only [Function.comp_def, readDeclaration_trimmed] at htrimmed
  exact htrimmed.symm

/-- The first declaration on the lines of a text whose type does not read. -/
def IsFirstFault (dialect : Dialect) (text : List Char) (declaration : Declaration)
    (fault : BoundError) : Prop :=
  ∃ before line after, lines text = before ++ line :: after ∧
    (∀ earlier ∈ before, ∀ other ∈ Declaration.ofLine? earlier,
      ∃ type, dialect.readType other.type = .ok type) ∧
    Declaration.ofLine? line = some declaration ∧ dialect.readType declaration.type = .error fault

/-- The error of a text is that of its first declaration whose type does not read. -/
theorem readMembers_eq_error_iff {text : List Char} {error : FormatError} :
    dialect.readMembers text = .error error ↔
      ∃ declaration fault, dialect.IsFirstFault text declaration fault ∧
        error = .badMember dialect.vendor (String.ofList declaration.name) (.bounds fault) := by
  rw [readMembers, mapM_eq_error_iff]
  constructor
  · rintro ⟨earlier, declaration, later, hsplit, hearlier, hbad⟩
    obtain ⟨fault, hfault, herror⟩ := readDeclaration_eq_error_iff.mp hbad
    obtain ⟨declaring, rest, hlines, hdeclaring, hrest⟩ := List.filterMap_eq_append_iff.mp hsplit
    obtain ⟨passed, line, after, rfl, hpassed, hline, -⟩ := List.filterMap_eq_cons_iff.mp hrest
    refine ⟨declaration, fault, ⟨declaring ++ passed, line, after, ?_, ?_, hline, hfault⟩, herror⟩
    · rw [hlines, List.append_assoc]
    · intro other hother found hfound
      rcases List.mem_append.mp hother with hmem | hmem
      · refine exists_readDeclaration_iff.mp (hearlier found ?_)
        rw [← hdeclaring]
        exact List.mem_filterMap.mpr ⟨other, hmem, hfound⟩
      · rw [hpassed other hmem] at hfound
        nomatch hfound
  · rintro ⟨declaration, fault, ⟨before, line, after, hlines, hbefore, hline, hfault⟩, herror⟩
    refine ⟨before.filterMap Declaration.ofLine?, declaration, after.filterMap Declaration.ofLine?,
      ?_, ?_, readDeclaration_eq_error_iff.mpr ⟨fault, hfault, herror⟩⟩
    · rw [Declaration.all, hlines, List.filterMap_append, List.filterMap_cons, hline]
    · intro found hfound
      obtain ⟨earlier, hearlier, hdeclared⟩ := List.mem_filterMap.mp hfound
      exact exists_readDeclaration_iff.mpr (hbefore earlier hearlier found hdeclared)

/-- The members of a text with a line feed are those before it and those behind it, and the error is
that of the text before it if there is one. -/
theorem readMembers_append_lineFeed (dialect : Dialect) (text rest : List Char) :
    dialect.readMembers (text ++ '\n' :: rest) =
      match dialect.readMembers text, dialect.readMembers rest with
      | .ok members, .ok others => .ok (members ++ others)
      | .error error, _ => .error error
      | .ok _, .error error => .error error := by
  rw [readMembers, Declaration.all_append_lineFeed, List.mapM_append, ← readMembers, ← readMembers]
  cases dialect.readMembers text <;> cases dialect.readMembers rest <;> rfl

/-- The members of a text are scanned by one pattern from its start to its end, and still line by line:
what the pattern matches is what it matches on each line alone. So a text with a line feed has the
members before it and behind it. It has the error of the text before it or else of the text behind
it, and that is the error of the first declaration whose type does not read. -/
theorem readMembers_local (dialect : Dialect) :
    (∀ text, dialect.readMembers text = (declarationPattern.scan none text).mapM fun parts =>
      dialect.readDeclaration (.ofParts parts)) ∧
    (∀ text, declarationPattern.scan none text =
      (lines text).filterMap (declarationPattern.parts? none)) ∧
    (∀ text rest, dialect.readMembers (text ++ '\n' :: rest) =
      match dialect.readMembers text, dialect.readMembers rest with
      | .ok members, .ok others => .ok (members ++ others)
      | .error error, _ => .error error
      | .ok _, .error error => .error error) ∧
    ∀ text error, dialect.readMembers text = .error error ↔
      ∃ declaration fault, dialect.IsFirstFault text declaration fault ∧
        error = .badMember dialect.vendor (String.ofList declaration.name) (.bounds fault) :=
  ⟨dialect.readMembers_eq_scan, scan_declarationPattern, dialect.readMembers_append_lineFeed,
    fun _ _ => readMembers_eq_error_iff⟩

end Dialect

end PlcTypes.StructuredText
