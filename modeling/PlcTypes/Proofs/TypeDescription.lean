import PlcTypes.Proofs.Format.Beckhoff
import PlcTypes.Proofs.Format.Siemens

/-!
# Type descriptions in structured text

The description of a type stands behind the end of its declaration, and that end is the first place
where its keyword stands alone. Comments of members come before it and are searched as well. So a
member's description leaves the type's description alone, whatever comments it opens or closes,
unless it has the keyword as a word of its own.
-/

namespace PlcTypes

open Text StructuredText

namespace Siemens

/-- A definition with an identifier for its name is read back from its type source with its description
as it can stand in a comment. -/
theorem exists_description {d : Definition} (hname : isIdentifier d.name.toList = true)
    (hmembers : ∀ member ∈ d.members, member.IsDeclarable ∧ LeavesOpen member) :
    ∃ read, parse (generate d) = .ok read ∧ read.description = inBlock d.description := by
  have hne : d.name.toList ≠ [] := by
    intro hnil
    rw [hnil] at hname
    exact absurd hname (by decide)
  have hquote : '"' ∉ d.name.toList := fun hmem => absurd (isNameChar_of_mem hname hmem) (by decide)
  have hfind := find?_of_accept (head?_append (body d) hne hquote)
  have hread := readMembers_body fun member hmem => (hmembers member hmem).1
  have hdescription := description_body_of_leavesOpen fun member hmem => (hmembers member hmem).2
  have hbare : (Definition.bare d.name (inBlock d.description)).HasDistinctNames := List.nodup_nil
  refine ⟨(Definition.bare d.name (inBlock d.description)).pushAll (d.members.map folded), ?_, ?_⟩
  · rw [parse, Dialect.parse, toList_generate, hfind]
    simp only [hread, hdescription, Except.map, inBlock, String.ofList_toList]
  · exact (Definition.pushAll_spec hbare _).2.1

end Siemens

namespace Beckhoff

/-- A definition is read back from its data unit type with its description on one line. -/
theorem exists_description {d : Definition} (hname : isIdentifier d.name.toList = true)
    (hmembers : ∀ member ∈ d.members, member.IsDeclarable ∧ LeavesOpen member) :
    ∃ read, parse (generate d) = .ok read ∧ read.description = oneLine d.description := by
  have hread := readMembers_body fun member hmem => (hmembers member hmem).1
  have hdescription := findDescription_body_of_leavesOpen fun member hmem => (hmembers member hmem).2
  have hbare : (Definition.bare d.name (oneLine d.description)).HasDistinctNames := List.nodup_nil
  refine ⟨(Definition.bare d.name (oneLine d.description)).pushAll (d.members.map folded), ?_, ?_⟩
  · rw [parse, Dialect.parse, find?_generate hname]
    simp only [hread, hdescription, Except.map, oneLine, String.ofList_toList]
  · exact (Definition.pushAll_spec hbare _).2.1

end Beckhoff

/-- Two definitions of the same identifier and description are read back with the same description, from
type sources as well as from data unit types, whatever their members are otherwise described as. -/
theorem members_keep_typeDescription {d e : Definition} (hname : isIdentifier d.name.toList = true)
    (hsame : d.name = e.name) (hdescription : d.description = e.description)
    (hd : ∀ member ∈ d.members, member.IsDeclarable ∧ LeavesOpen member)
    (he : ∀ member ∈ e.members, member.IsDeclarable ∧ LeavesOpen member) :
    (∃ d' e', Siemens.parse (Siemens.generate d) = .ok d' ∧
      Siemens.parse (Siemens.generate e) = .ok e' ∧
        d'.description = e'.description ∧ d'.description = inBlock d.description) ∧
    ∃ d' e', Beckhoff.parse (Beckhoff.generate d) = .ok d' ∧
      Beckhoff.parse (Beckhoff.generate e) = .ok e' ∧
        d'.description = e'.description ∧ d'.description = oneLine d.description := by
  have hname' : isIdentifier e.name.toList = true := hsame ▸ hname
  constructor
  · obtain ⟨d', hparse, hread⟩ := Siemens.exists_description hname hd
    obtain ⟨e', hparse', hread'⟩ := Siemens.exists_description hname' he
    exact ⟨d', e', hparse, hparse', by rw [hread, hread', hdescription], hread⟩
  · obtain ⟨d', hparse, hread⟩ := Beckhoff.exists_description hname hd
    obtain ⟨e', hparse', hread'⟩ := Beckhoff.exists_description hname' he
    exact ⟨d', e', hparse, hparse', by rw [hread, hread', hdescription], hread⟩

/-- A tank with a described level. -/
def tank (description level : String) : Definition where
  name := "ST_Tank"
  description := description
  members := [⟨"level", .scalar .real, none, level⟩, ⟨"full", .scalar .bool, none, "*) // of it"⟩]

/-- The members of a tank can be declared and do not end it if the level's description does not. -/
theorem declarable_tank {description level : String} (hlevel : ¬StandsAlone endWord level.toList) :
    ∀ member ∈ (tank description level).members, member.IsDeclarable ∧ LeavesOpen member := by
  have hscalar (name text : String) (kind : ScalarKind) (hname : isIdentifier name.toList = true)
      (halone : ¬StandsAlone endWord name.toList) (htext : ¬StandsAlone endWord text.toList) :
      (Member.mk name (.scalar kind) none text).IsDeclarable ∧
        LeavesOpen (Member.mk name (.scalar kind) none text) :=
    ⟨⟨⟨none, rfl⟩, hname, trivial, trivial, by simp⟩, ⟨halone, trivial, by simp, htext⟩⟩
  intro member hmem
  simp only [tank, List.mem_cons, List.not_mem_nil, or_false] at hmem
  rcases hmem with rfl | rfl
  · exact hscalar _ _ _ (by decide) (by decide) hlevel
  · exact hscalar _ _ _ (by decide) (by decide) (by decide)

/-- Neither longer words nor comments in the description of the level change that of the tank. -/
theorem tank_description :
    (∃ d' e', Siemens.parse (Siemens.generate (tank "Feed\ntank" "")) = .ok d' ∧
      Siemens.parse (Siemens.generate (tank "Feed\ntank" "END_TYPES (* // no *) MY_END_TYPE")) = .ok e' ∧
        d'.description = e'.description ∧ d'.description = "Feed tank") ∧
    ∃ d' e', Beckhoff.parse (Beckhoff.generate (tank "Feed\ntank" "")) = .ok d' ∧
      Beckhoff.parse (Beckhoff.generate (tank "Feed\ntank" "END_TYPES (* // no *) MY_END_TYPE")) =
        .ok e' ∧ d'.description = e'.description ∧ d'.description = "Feed tank" :=
  members_keep_typeDescription (by decide) rfl rfl (declarable_tank (by decide))
    (declarable_tank (by decide))

/-- The keyword in the description of the level lets the comment behind it take over the description of
a tank that has none. -/
theorem tank_description_taken :
    ((∃ d', Siemens.parse (Siemens.generate (tank "" "")) = .ok d' ∧ d'.description = "") ∧
      (Siemens.parse (Siemens.generate (tank "" "END_TYPE (* taken *)"))).map Definition.description =
        .ok "taken") ∧
    (∃ d', Beckhoff.parse (Beckhoff.generate (tank "" "")) = .ok d' ∧ d'.description = "") ∧
      (Beckhoff.parse (Beckhoff.generate (tank "" "END_TYPE // taken"))).map Definition.description =
        .ok "taken" := by
  have hplain : ∀ member ∈ (tank "" "").members, member.IsDeclarable ∧ LeavesOpen member :=
    declarable_tank (by decide)
  refine ⟨⟨?_, by decide +kernel⟩, ?_, by decide +kernel⟩
  · exact Siemens.exists_description (by decide) hplain
  · exact Beckhoff.exists_description (by decide) hplain

end PlcTypes
