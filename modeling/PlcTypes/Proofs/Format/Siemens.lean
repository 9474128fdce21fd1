import PlcTypes.Format.Siemens
import PlcTypes.Proofs.StructuredText.Body

/-!
# Siemens type sources read back

A written type source is read back with its name and its members, their descriptions on one
line. The description of the type is looked for behind the end of the declaration, so it is read
back too unless some text of a member looks like that end.
-/

namespace PlcTypes.Siemens

open Text StructuredText

/-- The words of the dialect conform. -/
theorem conforms : dialect.Conforms := Dialect.conforms_mixedCase .siemens

/-- What stands behind the end of the declaration. -/
def afterType (description : String) : List Char :=
  if description.isEmpty then []
  else '\n' :: '(' :: '*' :: ' ' :: (keepOpen (foldLine description.toList) ++
    ' ' :: '*' :: ')' :: ['\n'])

/-- What stands behind the members. -/
def afterMembers (description : String) : List Char :=
  "   END_STRUCT;\n".toList ++ '\n' :: (endWord ++ '\n' :: afterType description)

/-- What stands behind the name. -/
def body (d : Definition) : List Char :=
  "\nVERSION : 0.1\n   STRUCT\n".toList ++
    ((dialect.declareAll "      " d.members).toList ++ afterMembers d.description)

/-- A type source is its head and its body. -/
theorem toList_generate (d : Definition) :
    (generate d).toList = "TYPE \"".toList ++ (d.name.toList ++ '"' :: body d) := by
  have hhead : "\"\nVERSION : 0.1\n   STRUCT\n".toList =
      '"' :: "\nVERSION : 0.1\n   STRUCT\n".toList := by decide
  have hend : "   END_STRUCT;\n\nEND_TYPE\n".toList =
      "   END_STRUCT;\n".toList ++ '\n' :: (endWord ++ ['\n']) := by decide
  have hcomment : (if d.description.isEmpty then "" else
      "\n(* " ++ inBlock d.description ++ " *)\n").toList = afterType d.description := by
    rw [afterType]
    split
    · rfl
    · simp [inBlock, String.toList_append]
  unfold generate body afterMembers
  simp only [String.toList_append, hhead, hend, hcomment, List.append_assoc, List.cons_append,
    List.nil_append, -String.reduceToList]

/-- The head of a type source is read up to the quote that closes the name. -/
theorem head?_append {name : List Char} (rest : List Char) (hne : name ≠ []) (hquote : '"' ∉ name) :
    head? none ("TYPE \"".toList ++ (name ++ '"' :: rest)) = some (name, rest) := by
  have hkeyword : keywordAfter? none "TYPE".toList ("TYPE \"".toList ++ (name ++ '"' :: rest)) =
      some (' ' :: '"' :: (name ++ '"' :: rest)) := keywordAfter?_eq_some_iff.mpr ⟨rfl, rfl⟩
  simp only [head?, bind, hkeyword, Option.bind_some]
  rw [startsWithSpace, if_pos (by decide), List.dropWhile_cons_of_pos (by decide),
    List.dropWhile_cons_of_neg (by decide), after?, if_pos (by decide), after?, Option.bind_some,
    cut?_singleton rest hquote, Option.bind_some]
  simp only [if_neg hne]

/-- The name of a type source is not empty and has no quote. -/
theorem name_of_head? {previous : Option Char} {text name rest : List Char}
    (h : head? previous text = some (name, rest)) : name ≠ [] ∧ '"' ∉ name := by
  simp only [head?, bind] at h
  obtain ⟨behind, -, h⟩ := Option.bind_eq_some_iff.mp h
  split at h
  · obtain ⟨quoted, -, h⟩ := Option.bind_eq_some_iff.mp h
    obtain ⟨⟨found, tail⟩, hcut, h⟩ := Option.bind_eq_some_iff.mp h
    dsimp only at h
    split at h
    · simp at h
    · rename_i hne
      obtain ⟨rfl, -⟩ : found = name ∧ tail = rest := by simpa using h
      exact ⟨hne, notMem_of_cut? hcut⟩
  · simp at h

/-- The comment behind a type source declares no member. -/
theorem all_afterType (description : String) : Declaration.all (afterType description) = [] := by
  rw [afterType]
  split
  · rfl
  · have hfeed : '\n' ∉ '(' :: '*' :: ' ' :: (keepOpen (foldLine description.toList) ++
        [' ', '*', ')']) := by
      simp [lineFeed_notMem_keepOpen (lineFeed_notMem_foldLine _)]
    simpa using Declaration.all_comment hfeed (by decide) (by decide)

/-- The lines behind the members declare no member. -/
theorem all_afterMembers (description : String) :
    Declaration.all (afterMembers description) = [] := by
  have hsplit : afterMembers description = "   END_STRUCT;".toList ++
      '\n' :: ([] ++ '\n' :: ("END_TYPE".toList ++ '\n' :: afterType description)) := rfl
  rw [hsplit, Declaration.all_append_lineFeed, Declaration.all_append_lineFeed,
    Declaration.all_append_lineFeed, all_afterType]
  decide

/-- Members whose declarations can be read are read back from a type source. -/
theorem readMembers_body_of_canDeclare {d : Definition}
    (hmembers : ∀ member ∈ d.members, dialect.CanDeclare member) :
    dialect.readMembers (body d) = .ok (d.members.map folded) := by
  have hindent : ∀ c ∈ "      ".toList, isBlank c = true := by decide
  have hrest := conforms.readMembers_declareAll hindent hmembers (all_afterMembers d.description)
  have hsplit : body d = [] ++ '\n' :: ("VERSION : 0.1".toList ++ '\n' :: ("   STRUCT".toList ++
      '\n' :: ((dialect.declareAll "      " d.members).toList ++ afterMembers d.description))) := rfl
  have hversion : Declaration.all [] = [] ∧ Declaration.all "VERSION : 0.1".toList = [] ∧
      Declaration.all "   STRUCT".toList = [] := by decide
  rw [Dialect.readMembers] at hrest ⊢
  rw [hsplit, Declaration.all_append_lineFeed, Declaration.all_append_lineFeed,
    Declaration.all_append_lineFeed, hversion.1, hversion.2.1, hversion.2.2]
  exact hrest

/-- The members of a type source read back. -/
theorem readMembers_body {d : Definition} (hmembers : ∀ member ∈ d.members, member.IsDeclarable) :
    dialect.readMembers (body d) = .ok (d.members.map folded) :=
  readMembers_body_of_canDeclare fun member hmem => conforms.canDeclare (hmembers member hmem)

/-- The description of a type source reads back from behind the end of the declaration, if no text of a
member has the keyword there as a word of its own. -/
theorem description_body_of_leavesOpen {d : Definition} (hopen : ∀ member ∈ d.members, LeavesOpen member) :
    ((afterEnd? (body d)).bind firstBlock?).getD [] =
      keepOpen (foldLine d.description.toList) := by
  have hindent : ∀ c ∈ "      ".toList, isBlank c = true := by decide
  have hstruct : ¬StandsAlone endWord "   END_STRUCT;\n".toList := by decide
  have hstart : ¬StandsAlone endWord "\nVERSION : 0.1\n   STRUCT".toList := by decide
  have hmembers := conforms.not_standsAlone_declareAll hindent hopen hstruct
  have hsplit : body d = ("\nVERSION : 0.1\n   STRUCT".toList ++ '\n' ::
      ((dialect.declareAll "      " d.members).toList ++ "   END_STRUCT;\n".toList)) ++
        '\n' :: (endWord ++ '\n' :: afterType d.description) := by
    have hhead : "\nVERSION : 0.1\n   STRUCT\n".toList =
        "\nVERSION : 0.1\n   STRUCT".toList ++ ['\n'] := by decide
    unfold body afterMembers
    simp only [hhead, List.append_assoc, List.cons_append, List.nil_append, -String.reduceToList]
  have hbreak : startsOutsideWord ('\n' :: afterType d.description) = true := by
    rw [startsOutsideWord]
    decide
  rw [hsplit, afterEnd?_append (not_standsAlone_append_cons hstart hmembers (by decide)) hbreak,
    Option.bind_some, afterType]
  split
  · rename_i hempty
    rw [String.isEmpty_iff.mp hempty]
    rfl
  · have htrim := isTrimmed_keepOpen (isTrimmed_foldLine d.description.toList)
    have hclosed := not_closed_keepOpen (foldLine d.description.toList)
    have hstart : ¬['(', '*'] <:+: ['\n', '\n'] ++ ['('] := by decide
    exact congrArg (Option.getD · []) (firstBlock?_append ['\n'] hstart htrim hclosed)

/-- The description of a type source reads back if no text of a member has the keyword that ends the
declaration. -/
theorem description_body {d : Definition} (havoids : ∀ member ∈ d.members, member.Avoids endWord) :
    ((afterEnd? (body d)).bind firstBlock?).getD [] = keepOpen (foldLine d.description.toList) :=
  description_body_of_leavesOpen fun member hmem => .of_avoids (havoids member hmem)

/-- A definition whose members' declarations can be read is read back, but for its description. -/
theorem parse_generate_of_canDeclare {d : Definition} (hne : d.name.toList ≠ [])
    (hquote : '"' ∉ d.name.toList) (hdistinct : d.HasDistinctNames)
    (hmembers : ∀ member ∈ d.members, dialect.CanDeclare member) :
    ∃ description, parse (generate d) = .ok ⟨d.name, description, d.members.map folded⟩ := by
  have hfind := find?_of_accept (head?_append (body d) hne hquote)
  refine ⟨String.ofList (((afterEnd? (body d)).bind firstBlock?).getD []), ?_⟩
  rw [parse, Dialect.parse, toList_generate, hfind]
  simp only [readMembers_body_of_canDeclare hmembers, Except.map, String.ofList_toList,
    hdistinct.bare_pushAll_map folded fun _ => rfl]

/-- A definition with a name between quotes and with members that can be declared is read back
from the type source that is written for it, with the descriptions of the members on one line. The
description of the type is read back as well, as it can stand in a comment, if no text of a member
has the keyword that ends the declaration. -/
theorem source_roundTrip {d : Definition} (hname : d.name ≠ "") (hquote : '"' ∉ d.name.toList)
    (hdistinct : d.HasDistinctNames) (hmembers : ∀ member ∈ d.members, member.IsDeclarable) :
    ∃ description, parse (generate d) = .ok ⟨d.name, description, d.members.map folded⟩ ∧
      ((∀ member ∈ d.members, member.Avoids endWord) → description = inBlock d.description) := by
  have hne : d.name.toList ≠ [] := fun hnil => hname (String.toList_eq_nil_iff.mp hnil)
  have hfind := find?_of_accept (head?_append (body d) hne hquote)
  refine ⟨String.ofList (((afterEnd? (body d)).bind firstBlock?).getD []), ?_, fun havoids => ?_⟩
  · rw [parse, Dialect.parse, toList_generate, hfind]
    simp only [readMembers_body hmembers, Except.map, String.ofList_toList,
      hdistinct.bare_pushAll_map folded fun _ => rfl]
  · rw [description_body havoids, inBlock]

/-- A pump with an array, a text that has to be escaped, and comments that have to be folded. -/
def pump : Definition where
  name := "Pump (main)"
  description := "Feed pump *)\nof the boiler"
  members :=
    [.of "speed" (.array (.array (.scalar .real) 0 3) (-1) 1) none "in rpm\n; END",
      .of "label" (.scalar .string) (some (.text "it's; $1\n")) "",
      .of "mode" (.named "E_Mode") (some (.text " Auto ")) "// kind",
      .of "limit" (.scalar .lint) (some (.text "-12")) ""]

/-- All members of the pump can be declared. -/
theorem isDeclarable_pump : ∀ member ∈ pump.members, member.IsDeclarable := by
  intro member hmember
  simp only [pump, List.mem_cons, List.not_mem_nil, or_false] at hmember
  rcases hmember with rfl | rfl | rfl | rfl
  · exact ⟨Member.isBuilt_of .., by decide, by decide, trivial, by decide⟩
  · exact ⟨Member.isBuilt_of .., by decide, by decide, trivial, by decide⟩
  · refine ⟨Member.isBuilt_of .., by decide, by decide, ?_, by decide⟩
    exact ⟨by decide, by decide, by decide, fun kind => by cases kind <;> decide, by decide⟩
  · exact ⟨Member.isBuilt_of .., by decide, by decide, trivial, by decide⟩

/-- The pump is read back from its type source. -/
theorem pump_roundTrip : parse (generate pump) =
    .ok ⟨pump.name, inBlock pump.description, pump.members.map folded⟩ := by
  obtain ⟨description, hparse, hdescription⟩ :=
    source_roundTrip (by decide) (by decide) (by decide) isDeclarable_pump
  rw [hparse, hdescription]
  intro member hmember
  simp only [pump, List.mem_cons, List.not_mem_nil, or_false] at hmember
  rcases hmember with rfl | rfl | rfl | rfl <;>
    exact ⟨by decide, by decide, by decide, by decide⟩

end PlcTypes.Siemens
