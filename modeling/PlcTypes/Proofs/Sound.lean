import PlcTypes.Catalogue
import PlcTypes.Conversion
import PlcTypes.Proofs.Import

/-!
# Sound definitions

A definition is sound if no name comes twice, its array bounds are in order, and every member has
been built. Bounds are compared wherever an array is made, and all that makes definitions builds
members and pushes them. So every definition that is drafted, imported, read from a universal
document or taken from the catalogue is sound, whatever was written down.
-/

namespace PlcTypes

/-- A built member with array bounds in order. -/
structure Member.IsSound (member : Member) : Prop where
  built : member.IsBuilt
  ordered : member.type.IsOrdered

/-- A definition with distinct names and sound members. -/
structure Definition.IsSound (d : Definition) : Prop where
  names : d.HasDistinctNames
  members : ∀ member ∈ d.members, member.IsSound

/-- Building a member makes it sound if its type is ordered. -/
@[simp] theorem Member.isSound_of_iff (name : String) (type : DataType) (initial : Option Literal)
    (description : String) : (of name type initial description).IsSound ↔ type.IsOrdered :=
  ⟨fun h => h.ordered, fun h => ⟨isBuilt_of .., h⟩⟩

namespace Definition

/-- A definition without members is sound. -/
theorem isSound_bare (name description : String) : (bare name description).IsSound :=
  ⟨List.nodup_nil, fun _ hmem => absurd hmem List.not_mem_nil⟩

/-- Pushing a sound member leaves a definition sound. -/
theorem IsSound.push {d : Definition} (h : d.IsSound) {member : Member} (hmember : member.IsSound) :
    (d.push member).IsSound := by
  refine ⟨h.names.push member, fun other hmem => ?_⟩
  rcases mem_of_mem_putMember hmem with rfl | hmem
  · exact hmember
  · exact h.members other hmem

/-- A definition is as sound under another name. -/
theorem IsSound.renamed {d : Definition} (h : d.IsSound) (name : String) : (d.renamed name).IsSound :=
  ⟨h.names, h.members⟩

/-- A definition made of sound members is sound, whatever names come twice. -/
theorem isSound_pushAll {name description : String} {members : List Member}
    (h : ∀ member ∈ members, member.IsSound) :
    ((bare name description).pushAll members).IsSound := by
  obtain ⟨hnames, hmembers⟩ := forall_mem_bare_pushAll h name description
  exact ⟨hnames, hmembers⟩

end Definition

/-- A drafted type that is built is ordered: the bounds are compared at every level. -/
theorem TypeDraft.isOrdered_of_build {draft : TypeDraft} {type : DataType}
    (h : draft.build = .ok type) : type.IsOrdered := by
  induction draft generalizing type with
  | spelled text => exact DataType.isOrdered_of_decodeWith DataType.refinesCanonical_canonicalLeaf h
  | scalar kind =>
    rw [← Except.ok.inj h]
    trivial
  | named name =>
    rw [← Except.ok.inj h]
    trivial
  | array base lower upper ih =>
    obtain ⟨inner, hinner, harray⟩ := bind_eq_ok_iff.mp h
    obtain ⟨hle, rfl⟩ := DataType.arrayOf_eq_ok_iff.mp harray
    exact ⟨hle, ih hinner⟩

/-- A drafted member that is built is built from its type. -/
theorem MemberDraft.exists_of_build {draft : MemberDraft} {member : Member}
    (h : draft.build = .ok member) : ∃ type, draft.type.build = .ok type ∧
      member = .of draft.name type draft.initial draft.description := by
  obtain ⟨type, htype, hmember⟩ := bind_eq_ok_iff.mp h
  exact ⟨type, htype, (Except.ok.inj hmember).symm⟩

/-- A drafted member that is built is sound. -/
theorem MemberDraft.isSound_of_build {draft : MemberDraft} {member : Member}
    (h : draft.build = .ok member) : member.IsSound := by
  obtain ⟨type, htype, rfl⟩ := exists_of_build h
  exact (Member.isSound_of_iff ..).mpr (TypeDraft.isOrdered_of_build htype)

/-- A drafted definition that is built is sound. -/
theorem Draft.isSound_of_build {draft : Draft} {d : Definition} (h : draft.build = .ok d) :
    d.IsSound := by
  obtain ⟨members, hmembers, hd⟩ := bind_eq_ok_iff.mp h
  rw [← Except.ok.inj hd]
  refine Definition.isSound_pushAll fun member hmem => ?_
  obtain ⟨memberDraft, -, hbuild⟩ := exists_of_mem_mapM hmembers hmem
  exact MemberDraft.isSound_of_build hbuild

/-- A member that a universal document describes is built from its draft, if it can be. -/
theorem Universal.buildMember_eq_ok_iff {draft : MemberDraft} {member : Member} :
    buildMember draft = .ok member ↔ draft.build = .ok member := by
  rw [buildMember]
  cases draft.build with
  | ok built => simp
  | error error => simp

/-- A definition that was read from a universal document is sound. -/
theorem Definition.isSound_of_ofUniversal {codec : Yaml.Codec} {text : String} {d : Definition}
    (h : ofUniversal text codec = .ok d) : d.IsSound := by
  rw [ofUniversal] at h
  split at h
  · rw [ofTree] at h
    split at h
    · obtain ⟨members, hmembers, rfl⟩ := map_eq_ok_iff.mp h
      refine isSound_pushAll fun member hmem => ?_
      obtain ⟨draft, -, hbuild⟩ := exists_of_mem_mapM hmembers hmem
      exact MemberDraft.isSound_of_build (Universal.buildMember_eq_ok_iff.mp hbuild)
    · simp at h
  · simp at h

/-- The members that a text declares are sound. -/
theorem StructuredText.Dialect.Conforms.isSound_of_readMembers {dialect : Dialect}
    (h : dialect.Conforms) {text : List Char} {members : List Member}
    (hread : dialect.readMembers text = .ok members) : ∀ member ∈ members, member.IsSound := by
  intro member hmem
  obtain ⟨declaration, -, type, htype, rfl⟩ := exists_of_mem_readMembers hread hmem
  exact (Member.isSound_of_iff ..).mpr (DataType.isOrdered_of_decodeWith h.refinesCanonical htype)

/-- A definition that was read from a type source is sound. -/
theorem Siemens.isSound_of_parse {text : String} {d : Definition} (h : parse text = .ok d) :
    d.IsSound := by
  obtain ⟨hit, members, description, -, hread, rfl⟩ := StructuredText.Dialect.exists_of_parse h
  exact Definition.isSound_pushAll
    ((StructuredText.Dialect.conforms_mixedCase .siemens).isSound_of_readMembers hread)

/-- A definition that was read from a data unit type is sound. -/
theorem Beckhoff.isSound_of_parse {text : String} {d : Definition} (h : parse text = .ok d) :
    d.IsSound := by
  obtain ⟨hit, members, description, -, hread, rfl⟩ := StructuredText.Dialect.exists_of_parse h
  exact Definition.isSound_pushAll
    ((StructuredText.Dialect.conforms_standard .beckhoff).isSound_of_readMembers hread)

/-- A definition that was read from an export is sound. -/
theorem Rockwell.isSound_of_parse {text : String} {d : Definition} (h : parse text = .ok d) :
    d.IsSound := by
  obtain ⟨hit, members, description, -, hmembers, rfl⟩ := exists_of_parse h
  refine Definition.isSound_pushAll fun member hmem => ?_
  obtain ⟨element, -, hmember⟩ := hmembers member hmem
  obtain ⟨text, -, type, name, description, htype, rfl⟩ := exists_of_readMember hmember
  exact (Member.isSound_of_iff ..).mpr (isOrdered_of_memberType htype)

/-- A definition that any vendor's importer reads is sound. -/
theorem Vendor.isSound_of_importer {vendor : Vendor} {read : String → Except FormatError Definition}
    (hvendor : vendor.importer? = some read) {text : String} {d : Definition}
    (h : read text = .ok d) : d.IsSound := by
  cases vendor with
  | rockwell =>
    obtain rfl : Rockwell.parse = read := Option.some.inj hvendor
    exact Rockwell.isSound_of_parse h
  | siemens =>
    obtain rfl : Siemens.parse = read := Option.some.inj hvendor
    exact Siemens.isSound_of_parse h
  | codesys => simp [importer?] at hvendor
  | beckhoff =>
    obtain rfl : Beckhoff.parse = read := Option.some.inj hvendor
    exact Beckhoff.isSound_of_parse h

namespace StandardType

/-- The members of a standard type are sound. -/
theorem isSound_of_mem_members (type : StandardType) : ∀ member ∈ type.members, member.IsSound := by
  have hlabels : (0 : Int64) ≤ 31 ∧ (0 : Int64) ≤ 15 := by decide
  cases type <;>
    simp [members, header, commandNames, reference, flag, raisedFlag, count, time, measure, label,
      labels, DataType.IsOrdered, hlabels]

/-- The definition of a standard type is sound. -/
theorem isSound_definition (type : StandardType) : type.definition.IsSound :=
  Definition.isSound_pushAll type.isSound_of_mem_members

end StandardType

end PlcTypes
