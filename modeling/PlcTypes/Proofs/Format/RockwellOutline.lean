import PlcTypes.Proofs.Format.Rockwell

/-!
# Descriptions and the structure of Rockwell exports

Descriptions stand in character data, but elements are looked for without regard to it. The member
list is still read back as it was written unless a description opens a member of its own: that of the
data type anywhere, that of a member behind the first end of a member in it. Then the names and types
that are read back do not depend on the descriptions, and otherwise a description can bring members in.
-/

namespace PlcTypes.Rockwell

open Text Markup

/-- No description of the definition opens a member where members are looked for, and all types are
read back. -/
structure IsContained (d : Definition) : Prop where
  description : ¬Opens "Member" d.description.toList
  members : ∀ member ∈ d.members, IsRecoverable member

/-- The definition read back has the members that were read back from its body. -/
theorem parse_generate_of_readMembers {d : Definition} {reads : List Member}
    (h : (findAll (takeElement? "Member") (body d)).mapM readMember = .ok (reads.map some)) :
    parse (generate d) = .ok ((Definition.bare d.name (String.ofList
      ((firstElement? "Description" (beforeMembers (body d))).getD []))).pushAll reads) := by
  obtain ⟨hit, hfind, hhit⟩ := Option.map_eq_some_iff.mp (find?_generate d)
  obtain ⟨hname, hrest⟩ := Prod.mk.inj hhit
  have hsome : (reads.map some).filterMap id = reads := by simp [List.filterMap_map]
  rw [parse, hfind]
  simp only [hname, hrest, h, Except.map, hsome, String.ofList_toList]

/-- What is read back from an export has the outline of the members as they are written. -/
theorem IsContained.exists_outline {d : Definition} (h : IsContained d) :
    ∃ read, parse (generate d) = .ok read ∧
      read.outline = ((Definition.bare d.name "").pushAll (d.members.map reread)).outline := by
  obtain ⟨reads, hreads, houtline, -⟩ := exists_readMembers_body h.description h.members
  refine ⟨_, parse_generate_of_readMembers hreads, ?_⟩
  apply Definition.outline_bare_pushAll
  rw [houtline, List.map_map]
  rfl

/-- The outline of the members that are read back depends on the outline of a definition alone. -/
theorem outline_reread {d e : Definition} (h : d.outline = e.outline) :
    ((Definition.bare d.name "").pushAll (d.members.map reread)).outline =
      ((Definition.bare e.name "").pushAll (e.members.map reread)).outline := by
  obtain ⟨hname, hmembers⟩ := Prod.mk.inj h
  rw [show d.name = e.name from hname]
  apply Definition.outline_bare_pushAll
  have hboth := congrArg (List.map fun part => (part.1, part.2.zeroBased)) hmembers
  rw [List.map_map, List.map_map] at hboth
  rw [List.map_map, List.map_map]
  exact hboth

/-- Two definitions of the same outline are read back with the same outline, whatever else their
descriptions hold, and if the names are distinct it is that of the definitions with the arrays numbered
from zero. -/
theorem descriptions_keep_outline {d e : Definition} (houtline : d.outline = e.outline)
    (hd : IsContained d) (he : IsContained e) :
    ∃ d' e', parse (generate d) = .ok d' ∧ parse (generate e) = .ok e' ∧ d'.outline = e'.outline ∧
      (d.HasDistinctNames → d'.outline =
        (d.name, d.members.map fun member => (member.name, member.type.zeroBased))) := by
  obtain ⟨d', hparse, hread⟩ := hd.exists_outline
  obtain ⟨e', hparse', hread'⟩ := he.exists_outline
  refine ⟨d', e', hparse, hparse', ?_, fun hdistinct => ?_⟩
  · rw [hread, hread', outline_reread houtline]
  · rw [hread, hdistinct.bare_pushAll_map reread fun _ => rfl, Definition.outline, List.map_map]
    rfl

/-- A pump with the given descriptions. -/
def pump (own first second : String) : Definition where
  name := "Pump"
  description := own
  members := [⟨"on", .scalar .bool, none, first⟩, ⟨"flow", .scalar .real, none, second⟩]

/-- Descriptions with tags that do no harm. -/
def marked : Definition :=
  pump "</Description> <Members> ]]> </DataType>" "<Member Name=\"x\"/> ]]>" "</Member><Members >"

/-- A pump is contained if its descriptions are. -/
theorem isContained_pump {own first second : String} (hown : ¬Opens "Member" own.toList)
    (hfirst : StaysInside first) (hsecond : StaysInside second) : IsContained (pump own first second) := by
  refine ⟨hown, fun member hmember => ?_⟩
  simp only [pump, List.mem_cons, List.not_mem_nil, or_false] at hmember
  rcases hmember with rfl | rfl
  · exact ⟨trivial, trivial, trivial, hfirst⟩
  · exact ⟨trivial, trivial, trivial, hsecond⟩

/-- The tags leave the pump with its members. -/
theorem outline_marked : ∃ d' e', parse (generate marked) = .ok d' ∧
    parse (generate (pump "" "" "")) = .ok e' ∧ d'.outline = e'.outline ∧
      d'.outline = ("Pump", [("on", .scalar .bool), ("flow", .scalar .real)]) := by
  have hmarked : IsContained marked := isContained_pump (by decide) (by decide) (by decide)
  have hplain : IsContained (pump "" "" "") := isContained_pump (by decide) (by decide) (by decide)
  obtain ⟨d', e', hparse, hparse', hsame, hnames⟩ :=
    descriptions_keep_outline (show marked.outline = (pump "" "" "").outline from rfl) hmarked hplain
  exact ⟨d', e', hparse, hparse', hsame, hnames (by decide)⟩

/-- The members of an export, character by character. -/
theorem toList_join_writeMember (members : List Member) :
    (String.join (members.map writeMember)).toList = members.flatMap fun member =>
      "          ".toList ++ (tagStart "Member" ++ ' ' ::
        (headChars member ++ (bodyPart member.description).toList)) := by
  induction members with
  | nil => rfl
  | cons member others ih => rw [toList_join_cons, toList_writeMember, ih, List.flatMap_cons]

/-- A pump with a description that ends its member and opens another one. -/
def tampered : Definition := pump "" "</Member><Member Name=\"off\" DataType=\"INT\"/>" ""

/-- The description of a member brings in a member that the same pump without descriptions lacks. -/
theorem tampered_member : tampered.outline = (pump "" "" "").outline ∧
    (∃ read, parse (generate tampered) = .ok read ∧ read.outline =
      ("Pump", [("on", .scalar .bool), ("off", .scalar .int), ("flow", .scalar .real)])) ∧
    ∃ read, parse (generate (pump "" "" "")) = .ok read ∧
      read.outline = ("Pump", [("on", .scalar .bool), ("flow", .scalar .real)]) := by
  have hreads : (findAll (takeElement? "Member") (body tampered)).mapM readMember =
      .ok ([⟨"on", .scalar .bool, none, ""⟩, ⟨"off", .scalar .int, none, ""⟩,
        ⟨"flow", .scalar .real, none, ""⟩].map some) := by
    unfold body
    rw [toList_join_writeMember]
    decide +kernel
  refine ⟨rfl, ⟨_, parse_generate_of_readMembers hreads, ?_⟩, ?_⟩
  · rw [Definition.bare_pushAll (by decide)]
    rfl
  · exact (isContained_pump (by decide) (by decide) (by decide)).exists_outline

end PlcTypes.Rockwell
