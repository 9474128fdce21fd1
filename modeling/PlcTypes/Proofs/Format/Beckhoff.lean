import PlcTypes.Format.Beckhoff
import PlcTypes.Proofs.StructuredText.Body

/-!
# Beckhoff data unit types read back

A written data unit type is read back with its name and its members, their descriptions on one
line. The attributes in front have neither the keyword of a declaration nor a comment. So the
declaration found is the one that was written, and its description is the line comment behind it
or none at all, unless some text of a member looks like the end of the declaration.
-/

namespace PlcTypes.Beckhoff

open Text StructuredText

/-- The words of the dialect conform. -/
theorem conforms : dialect.Conforms := Dialect.conforms_standard .beckhoff

/-- The attributes in front of the declaration. -/
def attributes : List Char := "\x7battribute 'qualified_only'\x7d\n\x7battribute 'strict'\x7d".toList

/-- What stands behind the end of the declaration. -/
def afterType (description : String) : List Char :=
  if description.isEmpty then []
  else '\n' :: '/' :: '/' :: ' ' :: (foldLine description.toList ++ ['\n'])

/-- What stands behind the members. -/
def afterMembers (description : String) : List Char :=
  "END_STRUCT".toList ++ '\n' :: (endWord ++ '\n' :: afterType description)

/-- What stands behind the colon. -/
def body (d : Definition) : List Char :=
  "\nSTRUCT\n".toList ++
    ((dialect.declareAll "\t" d.members).toList ++ afterMembers d.description)

/-- The body is that of a type declaration of the standard. -/
theorem body_eq (d : Definition) :
    body d = dialect.typeBody "\t" d.members (afterType d.description) := rfl

/-- A data unit type is its attributes, its head and its body. -/
theorem toList_generate (d : Definition) :
    (generate d).toList =
      attributes ++ '\n' :: ("TYPE ".toList ++ (d.name.toList ++ ' ' :: ':' :: body d)) := by
  have hattributes : "\x7battribute 'qualified_only'\x7d\n\x7battribute 'strict'\x7d\n".toList =
      attributes ++ ['\n'] := by decide
  have hcomment : (if d.description.isEmpty then "" else
      "\n// " ++ oneLine d.description ++ "\n").toList = afterType d.description := by
    rw [afterType]
    split
    · rfl
    · simp [oneLine, String.toList_append]
  have htype := dialect.toList_declareType "\t" d (afterType d.description)
  unfold generate
  simp only [String.toList_append, hattributes, hcomment, List.append_assoc, List.cons_append,
    List.nil_append, -String.reduceToList]
  rw [htype, body_eq]

/-- The head of a declaration is read up to the colon behind the identifier. -/
theorem head?_append {previous : Option Char} {name : List Char} (rest : List Char)
    (hprevious : previous.any isWordChar = false) (hname : isIdentifier name = true) :
    head? previous ("TYPE ".toList ++ (name ++ ' ' :: ':' :: rest)) = some (name, rest) := by
  have hkeyword : keywordAfter? previous "TYPE".toList
      ("TYPE ".toList ++ (name ++ ' ' :: ':' :: rest)) = some (' ' :: (name ++ ' ' :: ':' :: rest)) :=
    keywordAfter?_eq_some_iff.mpr ⟨hprevious, rfl⟩
  have hdrop : (name ++ ' ' :: ':' :: rest).dropWhile isSpace = name ++ ' ' :: ':' :: rest := by
    cases name with
    | nil => simp [isIdentifier] at hname
    | cons c tail =>
      rw [List.cons_append, List.dropWhile_cons_of_neg]
      simp [isSpace_of_isNameChar (isNameChar_of_mem hname List.mem_cons_self)]
  simp only [head?, bind, hkeyword, Option.bind_some]
  rw [startsWithSpace, if_pos (by decide), List.dropWhile_cons_of_pos (by decide), hdrop,
    takeIdentifier?_append _ hname (by decide), Option.bind_some]
  simp only
  rw [List.dropWhile_cons_of_pos (by decide), List.dropWhile_cons_of_neg (by decide), after?,
    if_pos (by decide), after?, Option.bind_some]

/-- A text of the shape of the head of a declaration: the keyword, white space, an identifier, and a
colon that may have white space in front. -/
def IsHead (text : List Char) : Prop :=
  ∃ space name gap, text = "TYPE".toList ++ (space ++ (name ++ (gap ++ [':']))) ∧
    (space ≠ [] ∧ ∀ c ∈ space, isSpace c = true) ∧ isIdentifier name = true ∧
    ∀ c ∈ gap, isSpace c = true

/-- The head of a declaration starts with the keyword, ends with the colon and has only characters of
names and white space between them. -/
theorem IsHead.spec {head : List Char} (h : IsHead head) :
    (∃ tail, head = 'T' :: tail) ∧ (∃ start, head = start ++ [':']) ∧
      ∀ c, isNameChar c = false → isSpace c = false → c ≠ ':' → c ∉ head := by
  obtain ⟨space, name, gap, rfl, ⟨-, hspace⟩, hname, hgap⟩ := h
  refine ⟨⟨_, rfl⟩, ⟨"TYPE".toList ++ (space ++ (name ++ gap)), by simp⟩, ?_⟩
  intro c hcname hcspace hcolon hmem
  have hkeyword : ∀ d ∈ "TYPE".toList, isNameChar d = true := by decide
  simp only [List.mem_append, List.mem_singleton, hcolon, or_false] at hmem
  rcases hmem with hmem | hmem | hmem | hmem
  · simp [hkeyword c hmem] at hcname
  · simp [hspace c hmem] at hcspace
  · simp [isNameChar_of_mem hname hmem] at hcname
  · simp [hgap c hmem] at hcspace

/-- What is read as the head of a declaration has the shape of one and continues no word. -/
theorem head?_spec {previous : Option Char} {text name rest : List Char}
    (h : head? previous text = some (name, rest)) :
    previous.any isWordChar = false ∧ isIdentifier name = true ∧
      ∃ head, IsHead head ∧ text = head ++ rest := by
  simp only [head?, bind] at h
  obtain ⟨behind, hkeyword, h⟩ := Option.bind_eq_some_iff.mp h
  split at h
  · rename_i hspace
    obtain ⟨⟨found, behindName⟩, hname, h⟩ := Option.bind_eq_some_iff.mp h
    obtain ⟨behindColon, hcolon, h⟩ := Option.bind_eq_some_iff.mp h
    obtain ⟨rfl, rfl⟩ : found = name ∧ behindColon = rest := by simpa using h
    obtain ⟨hidentifier, hbehind⟩ := takeIdentifier?_spec hname
    have hgap := List.takeWhile_append_dropWhile (p := isSpace) (l := behindName)
    have hlead := List.takeWhile_append_dropWhile (p := isSpace) (l := behind)
    rw [after?_eq_some_iff.mp hcolon] at hgap
    rw [hbehind] at hlead
    obtain ⟨hprevious, htext⟩ := keywordAfter?_eq_some_iff.mp hkeyword
    refine ⟨hprevious, hidentifier, _, ⟨behind.takeWhile isSpace, found,
      behindName.takeWhile isSpace, rfl, ⟨?_, fun c hc => List.mem_takeWhile_imp hc⟩, hidentifier,
      fun c hc => List.mem_takeWhile_imp hc⟩, ?_⟩
    · cases behind with
      | nil => simp [startsWithSpace] at hspace
      | cons c tail => simp [List.takeWhile_cons_of_pos (show isSpace c = true from hspace)]
    · calc
        text = "TYPE".toList ++ behind := htext
        _ = "TYPE".toList ++ (behind.takeWhile isSpace ++ (found ++ behindName)) := by rw [hlead]
        _ = "TYPE".toList ++ (behind.takeWhile isSpace ++ (found ++
            (behindName.takeWhile isSpace ++ ([':'] ++ behindColon)))) := by rw [hgap]
        _ = _ := by simp only [List.append_assoc]
  · simp at h

/-- No head is read where none stands outside of words. -/
theorem head?_eq_none {previous : Option Char} {text : List Char}
    (h : ∀ head, IsHead head → keywordAfter? previous head text = none) : head? previous text = none := by
  rw [Option.eq_none_iff_forall_ne_some]
  rintro ⟨name, rest⟩ hread
  obtain ⟨hprevious, -, head, hhead, rfl⟩ := head?_spec hread
  have hfound := keywordAfter?_eq_some_iff.mpr ⟨hprevious, (rfl : head ++ rest = head ++ rest)⟩
  simp [h head hhead] at hfound

/-- No head of a declaration starts with another character than the keyword does. -/
theorem head?_cons_of_ne {previous : Option Char} {c : Char} (text : List Char) (h : 'T' ≠ c) :
    head? previous (c :: text) = none := by
  refine head?_eq_none fun head hhead => ?_
  obtain ⟨⟨tail, rfl⟩, -, -⟩ := hhead.spec
  rw [keywordAfter?, after?_cons_of_ne _ _ h, ite_self]

/-- The declaration found is the one that was written. -/
theorem find?_generate {d : Definition} (hname : isIdentifier d.name.toList = true) :
    find? head? none (generate d).toList = some ⟨attributes ++ ['\n'], d.name.toList, body d⟩ := by
  have hreject (previous : Option Char) (text : List Char)
      (hnone : keywordAfter? previous "TYPE".toList text = none) : head? previous text = none := by
    simp only [head?, bind, hnone, Option.bind_none]
  have hstart : IsInner "TYPE".toList attributes := isInner_of_not_occurs (by decide)
  rw [toList_generate, find?_append_of_isInner _ hreject hstart (by decide) (by decide),
    find?_of_accept (head?_append (body d) (by decide) hname)]
  rfl

/-- The comment behind the declaration declares no member. -/
theorem all_afterType (description : String) : Declaration.all (afterType description) = [] := by
  rw [afterType]
  split
  · rfl
  · have hfeed : '\n' ∉ '/' :: '/' :: ' ' :: foldLine description.toList := by
      simp [lineFeed_notMem_foldLine]
    exact Declaration.all_comment hfeed (by decide) (by decide)

/-- Members whose declarations can be read are read back from a data unit type. -/
theorem readMembers_body_of_canDeclare {d : Definition}
    (hmembers : ∀ member ∈ d.members, dialect.CanDeclare member) :
    dialect.readMembers (body d) = .ok (d.members.map folded) := by
  rw [body_eq]
  exact conforms.readMembers_typeBody (by decide) hmembers (all_afterType d.description)

/-- The members of a data unit type read back. -/
theorem readMembers_body {d : Definition} (hmembers : ∀ member ∈ d.members, member.IsDeclarable) :
    dialect.readMembers (body d) = .ok (d.members.map folded) :=
  readMembers_body_of_canDeclare fun member hmem => conforms.canDeclare (hmembers member hmem)

/-- The description of a data unit type reads back from behind the end of the declaration, if no text
of a member has the keyword there as a word of its own. -/
theorem findDescription_body_of_leavesOpen {d : Definition}
    (hopen : ∀ member ∈ d.members, LeavesOpen member) :
    findDescription (attributes ++ ['\n']) (body d) = foldLine d.description.toList := by
  have hend : afterEnd? (body d) = some ('\n' :: afterType d.description) := by
    rw [body_eq]
    exact conforms.afterEnd?_typeBody (by decide) hopen _
  rw [findDescription, hend, Option.bind_some, afterType]
  split_ifs with hempty
  · have hnoLine : firstLine? ['\n'] = none := firstLine?_eq_none (by decide)
    have hnoBlock : firstBlock? (attributes ++ ['\n']) = none := firstBlock?_eq_none (by decide)
    rw [hnoLine, hnoBlock, String.isEmpty_iff.mp hempty]
    rfl
  · have hslash : ¬['/', '/'] <:+: ['\n', '\n'] ++ ['/'] := by decide
    have hline := firstLine?_append [] hslash (isTrimmed_foldLine d.description.toList)
      (lineFeed_notMem_foldLine _) (return_notMem_foldLine _)
    simp only [List.cons_append, List.nil_append] at hline
    rw [hline]

/-- The description of a data unit type reads back if no text of a member has the keyword that ends the
declaration. -/
theorem findDescription_body {d : Definition}
    (havoids : ∀ member ∈ d.members, member.Avoids endWord) :
    findDescription (attributes ++ ['\n']) (body d) = foldLine d.description.toList :=
  findDescription_body_of_leavesOpen fun member hmem => .of_avoids (havoids member hmem)

/-- A definition whose members' declarations can be read is read back, but for its description. -/
theorem parse_generate_of_canDeclare {d : Definition} (hname : isIdentifier d.name.toList = true)
    (hdistinct : d.HasDistinctNames) (hmembers : ∀ member ∈ d.members, dialect.CanDeclare member) :
    ∃ description, parse (generate d) = .ok ⟨d.name, description, d.members.map folded⟩ := by
  refine ⟨String.ofList (findDescription (attributes ++ ['\n']) (body d)), ?_⟩
  rw [parse, Dialect.parse, find?_generate hname]
  simp only [readMembers_body_of_canDeclare hmembers, Except.map, String.ofList_toList,
    hdistinct.bare_pushAll_map folded fun _ => rfl]

/-- A definition with an identifier for its name and with members that can be declared is read
back from the data unit type that is written for it, with the descriptions of the members on one
line. The description of the type is read back on one line as well if no text of a member has the
keyword that ends the declaration. -/
theorem dataUnit_roundTrip {d : Definition} (hname : isIdentifier d.name.toList = true)
    (hdistinct : d.HasDistinctNames) (hmembers : ∀ member ∈ d.members, member.IsDeclarable) :
    ∃ description, parse (generate d) = .ok ⟨d.name, description, d.members.map folded⟩ ∧
      ((∀ member ∈ d.members, member.Avoids endWord) → description = oneLine d.description) := by
  refine ⟨String.ofList (findDescription (attributes ++ ['\n']) (body d)), ?_, fun havoids => ?_⟩
  · rw [parse, Dialect.parse, find?_generate hname]
    simp only [readMembers_body hmembers, Except.map, String.ofList_toList,
      hdistinct.bare_pushAll_map folded fun _ => rfl]
  · rw [findDescription_body havoids, oneLine]

/-- A motor with an array of references, a real and a text that has to be escaped. -/
def motor : Definition where
  name := "ST_Motor"
  description := "Drive // of the\r\nfan"
  members :=
    [.of "phases" (.array (.named "ST_Phase") 1 3) none "one\teach",
      .of "ratio" (.scalar .real) (some (.int 4)) "END",
      .of "tag" (.scalar .string) (some (.text "\x0eND_TYPE; '")) "",
      .of "fast" (.scalar .bool) (some (.text "True")) "(* not *)"]

/-- All members of the motor can be declared. -/
theorem isDeclarable_motor : ∀ member ∈ motor.members, member.IsDeclarable := by
  intro member hmember
  simp only [motor, List.mem_cons, List.not_mem_nil, or_false] at hmember
  rcases hmember with rfl | rfl | rfl | rfl
  · refine ⟨Member.isBuilt_of .., by decide, by decide, ?_, by decide⟩
    exact ⟨by decide, by decide, by decide, fun kind => by cases kind <;> decide, by decide⟩
  · exact ⟨Member.isBuilt_of .., by decide, by decide, trivial, by decide +kernel⟩
  · exact ⟨Member.isBuilt_of .., by decide, by decide, trivial, by decide⟩
  · exact ⟨Member.isBuilt_of .., by decide, by decide, trivial, by decide⟩

/-- The motor is read back from its data unit type. -/
theorem motor_roundTrip : parse (generate motor) =
    .ok ⟨motor.name, oneLine motor.description, motor.members.map folded⟩ := by
  obtain ⟨description, hparse, hdescription⟩ :=
    dataUnit_roundTrip (by decide) (by decide) isDeclarable_motor
  rw [hparse, hdescription]
  intro member hmember
  simp only [motor, List.mem_cons, List.not_mem_nil, or_false] at hmember
  rcases hmember with rfl | rfl | rfl | rfl <;>
    exact ⟨by decide, by decide, by decide +kernel, by decide⟩

end PlcTypes.Beckhoff
