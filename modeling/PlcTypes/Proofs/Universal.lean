import PlcTypes.Proofs.Definition
import PlcTypes.Proofs.Success
import PlcTypes.Universal

/-!
# Definitions read back from their document trees

The fields of a document tree give back what was written into them, and the type of a member is
then read from its spelling and the member built again. So a definition is given back if its types
read back from their spellings, its members are built and their names are distinct.
-/

namespace PlcTypes

open Number Yaml

/-- A member that is given back by its document tree. -/
structure Member.IsRegular (member : Member) : Prop where
  built : member.IsBuilt
  type : DataType.ofSpelling member.type.spelling = .ok member.type

/-- A definition that is given back by its document tree. -/
structure Definition.IsRegular (d : Definition) : Prop where
  names : d.HasDistinctNames
  members : ∀ member ∈ d.members, member.IsRegular

/-- A definition made of regular members is regular, whatever names come twice. -/
theorem Definition.isRegular_pushAll {name description : String} {members : List Member}
    (h : ∀ member ∈ members, member.IsRegular) :
    ((Definition.bare name description).pushAll members).IsRegular := by
  obtain ⟨hnames, hmembers⟩ := forall_mem_bare_pushAll h name description
  exact ⟨hnames, hmembers⟩

/-- A member as it is written down in a document. -/
def Member.toDraft (member : Member) : MemberDraft :=
  ⟨member.name, .spelled member.type.spelling, member.initial, member.description⟩

/-- A regular member is built again from what is written down. -/
theorem Member.IsRegular.build_toDraft {member : Member} (h : member.IsRegular) :
    member.toDraft.build = .ok member := by
  have hmember : Member.of member.name member.type member.initial member.description = member :=
    h.built.of_initial member.description
  exact bind_eq_ok_iff.mpr ⟨member.type, h.type, congrArg Except.ok hmember⟩

/-- A literal is given back by its tree. -/
theorem Literal.ofTree?_toTree (value : Literal) : ofTree? value.toTree = some value := by
  cases value with
  | int value =>
    change some (ofInteger value.toInt) = some (.int value)
    rw [ofInteger, toInt64?_toInt]
  | bool value => rfl
  | real value => rfl
  | text value => rfl

namespace Universal

/-- The fields that were written are read. -/
theorem fields?_ofFields (fields : List (String × Tree)) : fields? (.ofFields fields) = some fields := by
  have hfields : fields? (.ofFields fields) = some (fields.map id) :=
    mapM_map_of_pure fun entry _ => rfl
  rw [hfields, List.map_id]

/-- The initial value of a member is read. -/
theorem optionalLiteral?_toTree (initial : Option Literal) :
    optionalLiteral? (some ((initial.map Literal.toTree).getD .null)) = some initial := by
  cases initial with
  | none => rfl
  | some value =>
    have hread := Literal.ofTree?_toTree value
    cases value <;> exact congrArg (Option.map some) hread

/-- A member is read as it was written down. -/
theorem member?_toTree (member : Member) : member? member.toTree = some member.toDraft := by
  obtain ⟨name, type, initial, description⟩ := member
  generalize hvalue : (initial.map Literal.toTree).getD .null = value
  have hinitial : optionalLiteral? (some value) = some initial :=
    hvalue ▸ optionalLiteral?_toTree initial
  rw [member?, Member.toTree, fields?_ofFields, hvalue]
  change (optionalLiteral? (some value)).bind _ = _
  rw [hinitial]
  rfl

/-- A definition is read as it was written down. -/
theorem draft?_toTree (d : Definition) :
    draft? d.toTree = some ⟨d.name, d.description, d.members.map Member.toDraft⟩ := by
  have hmembers : (d.members.map Member.toTree).mapM member? =
      some (d.members.map Member.toDraft) :=
    mapM_map_of_pure fun member _ => member?_toTree member
  rw [draft?, Definition.toTree, fields?_ofFields]
  change ((d.members.map Member.toTree).mapM member?).bind _ = _
  rw [hmembers]
  rfl

/-- Regular members are built again. -/
theorem mapM_buildMember {members : List Member} (h : ∀ member ∈ members, member.IsRegular) :
    (members.map Member.toDraft).mapM buildMember = .ok members := by
  have hbuild : (members.map Member.toDraft).mapM buildMember = pure (members.map id) :=
    mapM_map_of_pure fun member hmem => by
      rw [buildMember, (h member hmem).build_toDraft]
      rfl
  rw [hbuild, List.map_id]
  rfl

end Universal

/-- A regular definition is given back by its document tree. -/
theorem Definition.ofTree_toTree {d : Definition} (h : d.IsRegular) :
    Definition.ofTree d.toTree = .ok d := by
  rw [Definition.ofTree, Universal.draft?_toTree]
  simp only [Universal.build, Universal.mapM_buildMember h.members, Except.map,
    Definition.bare_pushAll h.names]

end PlcTypes
