import PlcTypes.Format.Codesys
import PlcTypes.Proofs.Format.Beckhoff

/-!
# CODESYS type declarations are read by the Beckhoff importer

The two dialects have the same words and declare members alike. The description stands in a comment
in front of the declaration, where the importer looks for it if no line comment stands behind the end.
The search for the head of the declaration passes over the comment unless there is a head in it.
-/

namespace PlcTypes.Codesys

open Text StructuredText

/-- The comment in front of the declaration. -/
def header (description : String) : List Char :=
  if description.isEmpty then []
  else '(' :: '*' :: ' ' :: (keepOpen (foldLine description.toList) ++ ' ' :: '*' :: ')' :: ['\n'])

/-- The dialects of the two vendors write alike. -/
theorem declareType_eq (indent : String) (d : Definition) :
    dialect.declareType indent d = Beckhoff.dialect.declareType indent d := rfl

/-- What stands behind the colon. -/
def body (d : Definition) : List Char := Beckhoff.dialect.typeBody "    " d.members []

/-- A type declaration is its comment, its head and its body. -/
theorem toList_generate (d : Definition) :
    (generate d).toList =
      header d.description ++ ("TYPE ".toList ++ (d.name.toList ++ ' ' :: ':' :: body d)) := by
  have hheader : (if d.description.isEmpty then "" else
      "(* " ++ inBlock d.description ++ " *)\n").toList = header d.description := by
    rw [header]
    split
    · rfl
    · simp [inBlock, String.toList_append]
  have htype := Beckhoff.dialect.toList_declareType "    " d []
  rw [List.append_nil] at htype
  rw [generate, String.toList_append, hheader, declareType_eq, htype, body]

/-- A head of a declaration is part of the comment only if it is part of the text in it. -/
theorem isInner_comment {head text : List Char} (hhead : Beckhoff.IsHead head)
    (htext : IsInner head text) : IsInner head ('(' :: '*' :: ' ' :: (text ++ ' ' :: ['*'])) := by
  obtain ⟨⟨tail, hstart⟩, ⟨start, hend⟩, hchars⟩ := hhead.spec
  have hne : head ≠ [] := by simp [hstart]
  have hlast : head.getLast hne ∉ [' '] := by simp [hend]
  have hnil : IsInner head [] := isInner_of_not_occurs (by simpa using hne)
  have hstar : '*' ∉ head := hchars '*' (by decide) (by decide) (by decide)
  have hopen : '(' ∉ head := hchars '(' (by decide) (by decide) (by decide)
  have hinside : IsInner head ((text ++ [' ']) ++ '*' :: []) :=
    (htext.append_of_last_notMem hne hlast).append_cons hnil hstar
  have hspace : ∀ d ∈ head.head?, d ≠ ' ' := by simp [hstart]
  rw [List.append_assoc, List.singleton_append] at hinside
  exact ((hinside.cons_of_head_ne hspace hne).cons hne hstar).cons hne hopen

/-- The declaration found is the one that was written, if there is no head of one in the comment. -/
theorem find?_generate {d : Definition} (hname : isIdentifier d.name.toList = true)
    (hheads : ∀ head, Beckhoff.IsHead head → IsInner head (inBlock d.description).toList) :
    find? Beckhoff.head? none (generate d).toList =
      some ⟨header d.description, d.name.toList, body d⟩ := by
  rw [toList_generate, header]
  split
  · exact find?_of_accept (Beckhoff.head?_append (body d) rfl hname)
  · rw [inBlock, String.toList_ofList] at hheads
    generalize keepOpen (foldLine d.description.toList) = text at hheads
    -- the comment is passed over up to its last character, which no head contains
    have hword : ∀ head, Beckhoff.IsHead head → head ≠ [] ∧ ')' ∉ head := by
      intro head hhead
      obtain ⟨⟨tail, hstart⟩, -, hchars⟩ := hhead.spec
      exact ⟨by simp [hstart], hchars ')' (by decide) (by decide) (by decide)⟩
    have hfound : find? Beckhoff.head? (some '\n')
        ("TYPE ".toList ++ (d.name.toList ++ ' ' :: ':' :: body d)) =
          some ⟨[], d.name.toList, body d⟩ :=
      find?_of_accept (Beckhoff.head?_append (body d) (by decide) hname)
    have hsplit : '(' :: '*' :: ' ' :: (text ++ ' ' :: '*' :: ')' :: ['\n']) ++
        ("TYPE ".toList ++ (d.name.toList ++ ' ' :: ':' :: body d)) =
        ('(' :: '*' :: ' ' :: (text ++ ' ' :: ['*'])) ++ ')' :: ('\n' ::
          ("TYPE ".toList ++ (d.name.toList ++ ' ' :: ':' :: body d))) := by
      simp only [List.cons_append, List.append_assoc, List.nil_append]
    rw [hsplit, find?_append_of_forall_isInner Beckhoff.IsHead _
      (fun _ _ => Beckhoff.head?_eq_none) (fun head hhead => isInner_comment hhead (hheads head hhead))
      hword, find?, Beckhoff.head?_cons_of_ne _ (by decide)]
    simp only [hfound, Option.map_some, List.cons_append, List.append_assoc, List.nil_append]

/-- The description is read back from the comment as it was written there. -/
theorem firstBlock?_header (description : String) :
    ((firstBlock? (header description)).map foldLine).getD [] = (inBlock description).toList := by
  rw [header, inBlock, String.toList_ofList]
  split
  · rename_i hempty
    rw [String.isEmpty_iff.mp hempty]
    rfl
  · have hfolded := isFolded_keepOpen (isFolded_foldLine description.toList)
    have hbefore : ¬['(', '*'] <:+: [] ++ ['('] := by decide
    have hblock := firstBlock?_append ['\n'] hbefore hfolded.trimmed (not_closed_keepOpen _)
    rw [List.nil_append] at hblock
    rw [hblock, Option.map_some, Option.getD_some, hfolded.foldLine_eq]

/-- The description is found in the comment, as no comment stands behind the declaration. -/
theorem findDescription_body {d : Definition}
    (havoids : ∀ member ∈ d.members, member.Avoids endWord) :
    Beckhoff.findDescription (header d.description) (body d) = (inBlock d.description).toList := by
  have hend : afterEnd? (body d) = some ['\n'] :=
    Beckhoff.conforms.afterEnd?_typeBody (by decide)
      (fun member hmem => .of_avoids (havoids member hmem)) []
  have hnoLine : firstLine? ['\n'] = none := firstLine?_eq_none (by decide)
  rw [Beckhoff.findDescription, hend, Option.bind_some, hnoLine]
  exact firstBlock?_header d.description

/-- The members of a type declaration read back. -/
theorem readMembers_body {d : Definition} (hmembers : ∀ member ∈ d.members, member.IsDeclarable) :
    Beckhoff.dialect.readMembers (body d) = .ok (d.members.map folded) :=
  Beckhoff.conforms.readMembers_typeBody (by decide)
    (fun member hmem => Beckhoff.conforms.canDeclare (hmembers member hmem)) rfl

/-- A description without the end of a comment stands in a comment as it does on a line. -/
theorem inBlock_eq_oneLine {description : String} (h : ¬['*', ')'] <:+: description.toList) :
    inBlock description = oneLine description := by
  have hfolded : ¬['*', ')'] <:+: foldLine description.toList := fun hoccurs =>
    h (infix_of_infix_foldLine ⟨by decide, by decide⟩ hoccurs)
  rw [inBlock, oneLine, keepOpen_eq_self hfolded]

/-- A definition with an identifier for its name and with members that can be declared and do not
have the keyword that ends a declaration in their texts is read by the Beckhoff importer from the
declaration that is written for it, if the comment in front has no head of a declaration in it but
as the end of a longer word. The descriptions of the members are on one line, and that of the type is
as it can stand in a comment. If it does not have the end of a comment in it, the data unit type
written for the definition is read alike. -/
theorem beckhoff_parse_generate {d : Definition} (hname : isIdentifier d.name.toList = true)
    (hdistinct : d.HasDistinctNames) (hmembers : ∀ member ∈ d.members, member.IsDeclarable)
    (havoids : ∀ member ∈ d.members, member.Avoids endWord)
    (hheads : ∀ head, Beckhoff.IsHead head → IsInner head (inBlock d.description).toList) :
    Beckhoff.parse (generate d) = .ok ⟨d.name, inBlock d.description, d.members.map folded⟩ ∧
      (¬['*', ')'] <:+: d.description.toList →
        Beckhoff.parse (generate d) = Beckhoff.parse (Beckhoff.generate d)) := by
  have hparse : Beckhoff.parse (generate d) =
      .ok ⟨d.name, inBlock d.description, d.members.map folded⟩ := by
    rw [Beckhoff.parse, Dialect.parse, find?_generate hname hheads]
    simp only [readMembers_body hmembers, Except.map, String.ofList_toList,
      findDescription_body havoids, hdistinct.bare_pushAll_map folded fun _ => rfl]
  refine ⟨hparse, fun hopen => ?_⟩
  rw [hparse, Beckhoff.parse, Dialect.parse, Beckhoff.find?_generate hname]
  simp only [Beckhoff.readMembers_body hmembers, Except.map, String.ofList_toList,
    Beckhoff.findDescription_body havoids, hdistinct.bare_pushAll_map folded fun _ => rfl]
  rw [inBlock_eq_oneLine hopen, oneLine]

/-- A belt whose description has the keyword of a declaration in it, but no head of one. -/
def belt : Definition where
  name := "ST_Belt"
  description := "TYPE of\tthe belt // (* first"
  members :=
    [.of "zones" (.array (.named "ST_Zone") (-1) 2) none "one\r\neach",
      .of "speed" (.scalar .real) (some (.text "2.50")) "m/s *)",
      .of "label" (.scalar .string) (some (.text "Line 'A'; left")) ""]

/-- The belt is read by the Beckhoff importer from its type declaration, and alike from its data unit type. -/
theorem beckhoff_parse_belt :
    Beckhoff.parse (generate belt) =
        .ok ⟨belt.name, "TYPE of the belt // (* first", belt.members.map folded⟩ ∧
      Beckhoff.parse (generate belt) = Beckhoff.parse (Beckhoff.generate belt) := by
  have hmembers : ∀ member ∈ belt.members, member.IsDeclarable := by
    intro member hmember
    simp only [belt, List.mem_cons, List.not_mem_nil, or_false] at hmember
    rcases hmember with rfl | rfl | rfl
    · refine ⟨Member.isBuilt_of .., by decide, by decide, ?_, by decide⟩
      exact ⟨by decide, by decide, by decide, fun kind => by cases kind <;> decide, by decide⟩
    · exact ⟨Member.isBuilt_of .., by decide, by decide, trivial, by decide +kernel⟩
    · exact ⟨Member.isBuilt_of .., by decide, by decide, trivial, by decide⟩
  have havoids : ∀ member ∈ belt.members, member.Avoids endWord := by
    intro member hmember
    simp only [belt, List.mem_cons, List.not_mem_nil, or_false] at hmember
    rcases hmember with rfl | rfl | rfl <;>
      exact ⟨by decide, by decide, by decide +kernel, by decide⟩
  have hheads : ∀ head, Beckhoff.IsHead head → IsInner head (inBlock belt.description).toList := by
    intro head hhead
    obtain ⟨-, ⟨start, rfl⟩, -⟩ := hhead.spec
    exact isInner_of_notMem (show ':' ∈ start ++ [':'] by simp) (by decide)
  have hdescription : inBlock belt.description = "TYPE of the belt // (* first" := by decide
  obtain ⟨hparse, halike⟩ := beckhoff_parse_generate (by decide) (by decide) hmembers havoids hheads
  rw [hdescription] at hparse
  exact ⟨hparse, halike (by decide)⟩

end PlcTypes.Codesys
