import PlcTypes.Proofs.Conversion
import PlcTypes.Proofs.Sound

/-!
# Reachable definitions and their universal documents

A definition that can be made has distinct names and built members, whatever its types are. So if
the print of its document tree reads back, the document gives the definition back exactly if every
type reads back from its spelling. The first type whose spelling is no type at all is the error.
-/

namespace PlcTypes

open Universal Yaml

/-- The definitions that can be made: member by member, by an importer or from a universal
document of any codec. The types of the members are any types, also names that spell another type. -/
inductive Definition.Reachable : Definition → Prop
  | bare (name description : String) : Reachable (.bare name description)
  | withMember {d : Definition} (h : Reachable d) (name : String) (type : DataType)
      (initial : Option Literal) (description : String) :
      Reachable (d.withMember name type initial description)
  | renamed {d : Definition} (h : Reachable d) (name : String) : Reachable (d.renamed name)
  | imported {vendor : Vendor} {read : String → Except FormatError Definition} {text : String}
      {d : Definition} (hvendor : vendor.importer? = some read) (h : read text = .ok d) : Reachable d
  | decoded {codec : Codec} {text : String} {d : Definition}
      (h : Definition.ofUniversal text codec = .ok d) : Reachable d

/-- A reachable definition has distinct names and built members. -/
theorem Definition.Reachable.isBuilt {d : Definition} (h : d.Reachable) :
    d.HasDistinctNames ∧ ∀ member ∈ d.members, member.IsBuilt := by
  have hsound {d : Definition} (h : d.IsSound) :
      d.HasDistinctNames ∧ ∀ member ∈ d.members, member.IsBuilt :=
    ⟨h.names, fun member hmem => (h.members member hmem).built⟩
  induction h with
  | bare name description => exact hsound (isSound_bare name description)
  | withMember _ name type initial description ih =>
    refine ⟨ih.1.push _, fun member hmem => ?_⟩
    rcases mem_of_mem_putMember hmem with rfl | hmem
    · exact Member.isBuilt_of ..
    · exact ih.2 member hmem
  | renamed _ name ih => exact ih
  | imported hvendor hread => exact hsound (Vendor.isSound_of_importer hvendor hread)
  | decoded hread => exact hsound (isSound_of_ofUniversal hread)

/-- The draft of a member is built if its type is spelled by the type it has. -/
theorem Member.build_toDraft_eq_ok_iff {member : Member} (h : member.IsBuilt) :
    buildMember member.toDraft = .ok member ↔
      DataType.ofSpelling member.type.spelling = .ok member.type := by
  rw [buildMember_eq_ok_iff]
  constructor
  · intro hbuild
    obtain ⟨type, htype, hmember⟩ := MemberDraft.exists_of_build hbuild
    have hsame : member.type = type := congrArg Member.type hmember
    have hspelling : DataType.ofSpelling member.type.spelling = .ok type := htype
    rw [hspelling, hsame]
  · intro htype
    exact Member.IsRegular.build_toDraft ⟨h, htype⟩

/-- The draft of a member cannot be built if the spelling of its type is no type. -/
theorem Member.buildMember_toDraft_eq_error_iff {member : Member} {error : UniversalError} :
    buildMember member.toDraft = .error error ↔
      ∃ bounds, DataType.ofSpelling member.type.spelling = .error bounds ∧
        error = .badType member.name bounds := by
  have hbuild : member.toDraft.build = (do
      return Member.of member.name (← DataType.ofSpelling member.type.spelling) member.initial
        member.description) := rfl
  rw [buildMember, hbuild]
  cases DataType.ofSpelling member.type.spelling with
  | ok type => simp [bind, Except.bind, pure, Except.pure]
  | error bounds => simp [bind, Except.bind, Member.toDraft, eq_comm]

namespace Definition

/-- A document tree is read by building the drafts of the members. -/
theorem ofTree_toTree_eq (d : Definition) : ofTree d.toTree =
    ((d.members.map Member.toDraft).mapM buildMember).map fun members =>
      (bare d.name d.description).pushAll members := by
  rw [ofTree, draft?_toTree]
  rfl

/-- The document tree of a definition with distinct names and built members gives the definition
back exactly if all its types read back from their spellings. -/
theorem ofTree_toTree_eq_ok_iff {d : Definition} (hnames : d.HasDistinctNames)
    (hmembers : ∀ member ∈ d.members, member.IsBuilt) : ofTree d.toTree = .ok d ↔
      ∀ member ∈ d.members, DataType.ofSpelling member.type.spelling = .ok member.type := by
  constructor
  · intro h
    rw [ofTree_toTree_eq] at h
    obtain ⟨built, hbuilt, hd⟩ := map_eq_ok_iff.mp h
    have hsteps := List.forall₂_map_left_iff.mp (forall₂_of_mapM hbuilt)
    -- the members built keep their names, so they are pushed one behind the other
    have hkeep : built.map Member.name = d.members.map Member.name := by
      rw [← List.forall₂_eq_eq_eq, List.forall₂_map_left_iff, List.forall₂_map_right_iff]
      refine hsteps.flip.imp fun member original hbuild => ?_
      obtain ⟨type, -, rfl⟩ := MemberDraft.exists_of_build (buildMember_eq_ok_iff.mp hbuild)
      rfl
    have hsame : built = d.members := by
      rw [bare_pushAll (by rw [hkeep]; exact hnames)] at hd
      exact congrArg Definition.members hd
    rw [hsame, List.forall₂_same] at hsteps
    exact fun member hmem =>
      (Member.build_toDraft_eq_ok_iff (hmembers member hmem)).mp (hsteps member hmem)
  · intro htypes
    exact ofTree_toTree ⟨hnames, fun member hmem => ⟨hmembers member hmem, htypes member hmem⟩⟩

/-- The document tree of a definition with a type whose spelling is no type gives the error of the
first such member. -/
theorem ofTree_toTree_eq_error {d : Definition}
    (h : ∃ member ∈ d.members, ∃ error, DataType.ofSpelling member.type.spelling = .error error) :
    ∃ before member after error, d.members = before ++ member :: after ∧
      (∀ other ∈ before, ∃ type, DataType.ofSpelling other.type.spelling = .ok type) ∧
      DataType.ofSpelling member.type.spelling = .error error ∧
      ofTree d.toTree = .error (.badType member.name error) := by
  obtain ⟨bad, hbad, bounds, hbounds⟩ := h
  have hfail : buildMember bad.toDraft = .error (.badType bad.name bounds) :=
    Member.buildMember_toDraft_eq_error_iff.mpr ⟨bounds, hbounds, rfl⟩
  cases hrun : (d.members.map Member.toDraft).mapM buildMember with
  | ok built =>
    obtain ⟨member, hmember⟩ := exists_of_mapM_eq_ok hrun (List.mem_map_of_mem hbad)
    simp [hmember] at hfail
  | error error =>
    obtain ⟨before, draft, after, hsplit, hbefore, hdraft⟩ := exists_of_mapM_eq_error hrun
    obtain ⟨first, rest, hmembers, rfl, hrest⟩ := List.map_eq_append_iff.mp hsplit
    obtain ⟨member, others, rfl, rfl, rfl⟩ := List.map_eq_cons_iff.mp hrest
    obtain ⟨bounds', hbounds', rfl⟩ := Member.buildMember_toDraft_eq_error_iff.mp hdraft
    refine ⟨first, member, others, bounds', hmembers, fun other hother => ?_, hbounds', ?_⟩
    · obtain ⟨built, hbuilt⟩ := hbefore _ (List.mem_map_of_mem hother)
      obtain ⟨type, htype, -⟩ := MemberDraft.exists_of_build (buildMember_eq_ok_iff.mp hbuilt)
      exact ⟨type, htype⟩
    · rw [ofTree_toTree_eq, hrun]
      rfl

/-- The universal document of a reachable definition, if it reads back as the tree that was printed,
gives the definition back exactly if all its types read back from their spellings. If the spelling
of some type is no type at all, the document gives the error of the first member with such a type. -/
theorem ofUniversal_toUniversal_iff {codec : Codec} {d : Definition} (hd : d.Reachable)
    (hprint : codec.ReadsBack d.toTree) :
    (ofUniversal (d.toUniversal codec) codec = .ok d ↔
      ∀ member ∈ d.members, DataType.ofSpelling member.type.spelling = .ok member.type) ∧
    ((∃ member ∈ d.members, ∃ error, DataType.ofSpelling member.type.spelling = .error error) →
      ∃ before member after error, d.members = before ++ member :: after ∧
        (∀ other ∈ before, ∃ type, DataType.ofSpelling other.type.spelling = .ok type) ∧
        DataType.ofSpelling member.type.spelling = .error error ∧
        ofUniversal (d.toUniversal codec) codec = .error (.badType member.name error)) := by
  have hread : ofUniversal (d.toUniversal codec) codec = ofTree d.toTree := by
    have htree : codec.read? (d.toUniversal codec) = some d.toTree := hprint
    rw [ofUniversal, htree]
  obtain ⟨hnames, hmembers⟩ := hd.isBuilt
  rw [hread]
  exact ⟨ofTree_toTree_eq_ok_iff hnames hmembers, ofTree_toTree_eq_error⟩

/-- A mixer with a gain. -/
def mixer : Definition := (bare "Mixer" "").withMember "gain" (.scalar .real) (some (.int 2)) ""

/-- The mixer with a name for a type that spells an array without elements. -/
def brokenMixer : Definition := mixer.withMember "mode" (.named "ARRAY[2..1] OF INT") none ""

/-- The document of the mixer gives the mixer back, and that of the broken one gives the error of the
member that has no type. -/
theorem ofUniversal_toUniversal_mixer :
    ofUniversal mixer.toUniversal = .ok mixer ∧
      ofUniversal brokenMixer.toUniversal = .error (.badType "mode" (.inverted 2 1)) := by
  have hmixer : mixer.Reachable := .withMember (.bare "Mixer" "") ..
  have hmembers : ∀ member ∈ brokenMixer.members,
      DataType.ofSpelling member.type.spelling = .ok member.type ∨ member.name = "mode" ∧
        DataType.ofSpelling member.type.spelling = .error (.inverted 2 1) := by decide +kernel
  have hfails : ∃ member ∈ brokenMixer.members, DataType.ofSpelling member.type.spelling =
      .error (.inverted 2 1) := by decide +kernel
  have hprint : Codec.standard.ReadsBack mixer.toTree := by decide +kernel
  have hbroken : Codec.standard.ReadsBack brokenMixer.toTree := by decide +kernel
  constructor
  · refine (ofUniversal_toUniversal_iff hmixer hprint).1.mpr ?_
    decide +kernel
  · obtain ⟨member, hmem, hfail⟩ := hfails
    obtain ⟨before, first, after, error, hsplit, -, hfirst, hread⟩ :=
      (ofUniversal_toUniversal_iff (hmixer.withMember ..) hbroken).2 ⟨member, hmem, _, hfail⟩
    have hfirstMem : first ∈ brokenMixer.members := by
      rw [brokenMixer, hsplit]
      exact List.mem_append_right _ List.mem_cons_self
    rcases hmembers first hfirstMem with hok | ⟨hname, herror⟩
    · simp [hfirst] at hok
    · obtain rfl : error = .inverted 2 1 := by simpa [hfirst] using herror
      rw [brokenMixer, hread, hname]

end Definition

end PlcTypes
