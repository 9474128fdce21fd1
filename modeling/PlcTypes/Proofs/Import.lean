import PlcTypes.Format.Beckhoff
import PlcTypes.Format.Siemens
import PlcTypes.Proofs.Format.RockwellType
import PlcTypes.Proofs.StructuredText.Dialect
import PlcTypes.Proofs.Universal
import PlcTypes.StructuredText.Declaration

/-!
# Definitions that were imported

An importer builds every member it reads and pushes them one after the other. Structured text has
only types that read back from their canonical spellings. An export may give an element count
apart from a type, so there the type also has to be one that can stand under an array.
-/

namespace PlcTypes

open Text

namespace StructuredText.Dialect

/-- A member that a text declares is built from a declaration of the text. -/
theorem exists_of_mem_readMembers {dialect : Dialect} {text : List Char} {members : List Member}
    (h : dialect.readMembers text = .ok members) {member : Member} (hmem : member ∈ members) :
    ∃ declaration ∈ Declaration.all text, ∃ type, dialect.readType declaration.type = .ok type ∧
      member = .of (String.ofList declaration.name) type (declaration.initial.map readInitial)
        (String.ofList declaration.description) := by
  obtain ⟨declaration, hdeclaration, hmember⟩ := exists_of_mem_mapM h hmem
  refine ⟨declaration, hdeclaration, ?_⟩
  rw [readDeclaration] at hmember
  split at hmember
  · rename_i type htype
    exact ⟨type, htype, (Except.ok.inj hmember).symm⟩
  · simp at hmember

/-- The members that a text declares are regular. -/
theorem Conforms.isRegular_of_readMembers {dialect : Dialect} (h : dialect.Conforms)
    {text : List Char} {members : List Member} (hread : dialect.readMembers text = .ok members) :
    ∀ member ∈ members, member.IsRegular := by
  intro member hmem
  obtain ⟨declaration, -, type, htype, rfl⟩ := exists_of_mem_readMembers hread hmem
  exact ⟨Member.isBuilt_of .., DataType.ofSpelling_spelling_of_decodeWith h.refinesCanonical htype⟩

/-- A declaration that is read has a head with members behind it, which are pushed one after the
other. -/
theorem exists_of_parse {dialect : Dialect}
    {head? : Option Char → List Char → Option (List Char × List Char)}
    {describe : List Char → List Char → List Char} {text : String} {d : Definition}
    (h : dialect.parse head? describe text = .ok d) :
    ∃ hit members description, find? head? none text.toList = some hit ∧
      dialect.readMembers hit.rest = .ok members ∧
      d = (Definition.bare (String.ofList hit.found) description).pushAll members := by
  rw [parse] at h
  split at h
  · simp at h
  · rename_i hit hfind
    obtain ⟨members, hread, rfl⟩ := map_eq_ok_iff.mp h
    exact ⟨hit, members, _, hfind, hread, rfl⟩

end StructuredText.Dialect

/-- A definition that was read from a type source is regular. -/
theorem Siemens.isRegular_of_parse {text : String} {d : Definition} (h : parse text = .ok d) :
    d.IsRegular := by
  obtain ⟨hit, members, description, -, hread, rfl⟩ := StructuredText.Dialect.exists_of_parse h
  exact Definition.isRegular_pushAll
    ((StructuredText.Dialect.conforms_mixedCase .siemens).isRegular_of_readMembers hread)

/-- A definition that was read from a data unit type is regular. -/
theorem Beckhoff.isRegular_of_parse {text : String} {d : Definition} (h : parse text = .ok d) :
    d.IsRegular := by
  obtain ⟨hit, members, description, -, hread, rfl⟩ := StructuredText.Dialect.exists_of_parse h
  exact Definition.isRegular_pushAll
    ((StructuredText.Dialect.conforms_standard .beckhoff).isRegular_of_readMembers hread)

namespace Rockwell

open Markup

/-- An element that is read as a member has a type, and the member is built without an initial
value. -/
theorem exists_of_readMember {element : Element} {member : Member}
    (h : readMember element = .ok (some member)) :
    ∃ text ∈ (MemberHead.of element.head).type, ∃ type name description,
      MemberHead.readType text (MemberHead.of element.head).dimension = .ok type ∧
        member = .of name type none description := by
  rw [readMember] at h
  dsimp only at h
  split at h
  · simp at h
  · rename_i name _
    split at h
    · simp at h
    · split at h
      · simp at h
      · rename_i text htext
        split at h
        · simp at h
        · rename_i type htype
          rw [Except.ok.injEq, Option.some.injEq] at h
          exact ⟨text, htext, type, String.ofList name, _, htype, h.symm⟩

/-- An export that is read has a head with member elements behind it, and the members that are read
from them are pushed one after the other. -/
theorem exists_of_parse {text : String} {d : Definition} (h : parse text = .ok d) :
    ∃ hit members description, find? (fun _ => head?) none text.toList = some hit ∧
      (∀ member ∈ members, ∃ element ∈ findAll (takeElement? "Member") hit.rest,
        readMember element = .ok (some member)) ∧
      d = (Definition.bare (String.ofList hit.found) description).pushAll members := by
  rw [parse] at h
  split at h
  · simp at h
  · rename_i hit hfind
    obtain ⟨found, hread, rfl⟩ := map_eq_ok_iff.mp h
    refine ⟨hit, found.filterMap id, _, hfind, fun member hmem => ?_, rfl⟩
    obtain ⟨read, hmem, rfl⟩ := List.mem_filterMap.mp hmem
    exact exists_of_mem_mapM hread hmem

/-- The type of every member of the export is more than white space and stays on one line. -/
def HasPlainTypes (text : String) : Prop :=
  ∀ hit ∈ find? (fun _ => head?) none text.toList,
    ∀ element ∈ findAll (takeElement? "Member") hit.rest,
      ∀ type ∈ (MemberHead.of element.head).type, trim type ≠ [] ∧ '\n' ∉ type

/-- A member that was read from an element with a plain type is regular. -/
theorem isRegular_of_readMember {element : Element} {member : Member}
    (hplain : ∀ type ∈ (MemberHead.of element.head).type, trim type ≠ [] ∧ '\n' ∉ type)
    (h : readMember element = .ok (some member)) : member.IsRegular := by
  obtain ⟨text, htext, type, name, description, htype, rfl⟩ := exists_of_readMember h
  obtain ⟨hne, hline⟩ := hplain text htext
  have hname := isBaseName_of_memberType hne (fun hmem => hline (mem_of_mem_trim hmem)) htype
  exact ⟨Member.isBuilt_of .., DataType.ofSpelling_spelling (isOrdered_of_memberType htype) hname⟩

/-- A definition that was read from an export with plain types is regular. -/
theorem isRegular_of_parse {text : String} {d : Definition} (hplain : HasPlainTypes text)
    (h : parse text = .ok d) : d.IsRegular := by
  obtain ⟨hit, members, description, hfind, hmembers, rfl⟩ := exists_of_parse h
  refine Definition.isRegular_pushAll fun member hmem => ?_
  obtain ⟨element, helement, hmember⟩ := hmembers member hmem
  exact isRegular_of_readMember (hplain hit hfind element helement) hmember

end Rockwell

end PlcTypes
