import PlcTypes.Proofs.Import
import PlcTypes.Proofs.StructuredText.Body

/-!
# Members that were read can be declared

A line that is read as a declaration has an identifier for a name, its type stays on the line and
ends at the next colon or semicolon, and its initial value is no real that is not finite. So a
member that was read can be declared again, unless its initial value is a text without quotes that
would end early or look quoted.
-/

namespace PlcTypes

open Text

/-- All initial values that are texts can stand in a declaration as they are written. -/
def Definition.HasDeclarableTexts (d : Definition) : Prop :=
  ∀ member ∈ d.members, ∀ value, member.initial = some (.text value) →
    (Literal.text value).IsDeclarable member.type

namespace StructuredText

namespace Declaration

/-- A declaration on a line has an identifier and a type that is a part of the line. -/
theorem ofLine?_spec {line : List Char} {declaration : Declaration}
    (h : ofLine? line = some declaration) :
    isIdentifier declaration.name = true ∧
      ∀ c ∈ declaration.type, isTypeChar c = true ∧ c ∈ line := by
  simp only [ofLine?, bind, Option.bind_eq_some_iff] at h
  obtain ⟨⟨name, behind⟩, hname, text, hcolon, h⟩ := h
  obtain ⟨hidentifier, hline⟩ := takeIdentifier?_spec hname
  have hsuffix : text <:+ line :=
    (after?_suffix hcolon).trans <| (List.dropWhile_suffix isBlank).trans <|
      (List.suffix_append name behind).trans (hline ▸ List.dropWhile_suffix isBlank)
  have htype : ∀ c ∈ text.takeWhile isTypeChar, isTypeChar c = true ∧ c ∈ line := fun c hc =>
    ⟨List.mem_takeWhile_imp hc, hsuffix.subset ((List.takeWhile_prefix isTypeChar).subset hc)⟩
  split at h
  · simp at h
  · obtain ⟨description, -, rfl⟩ := Option.map_eq_some_iff.mp h
    exact ⟨hidentifier, htype⟩
  · obtain ⟨⟨initial, description⟩, -, rfl⟩ := Option.map_eq_some_iff.mp h
    exact ⟨hidentifier, htype⟩
  · simp at h

/-- A declaration of a text has an identifier and a type on one line. -/
theorem spec_of_mem_all {text : List Char} {declaration : Declaration}
    (h : declaration ∈ all text) : isIdentifier declaration.name = true ∧
      ∀ c ∈ declaration.type, isTypeChar c = true ∧ c ≠ '\n' := by
  obtain ⟨line, hline, hdeclaration⟩ := List.mem_filterMap.mp h
  obtain ⟨hname, htype⟩ := ofLine?_spec hdeclaration
  refine ⟨hname, fun c hc => ⟨(htype c hc).1, ?_⟩⟩
  rintro rfl
  exact lineFeed_notMem_of_mem_lines hline (htype _ hc).2

end Declaration

namespace Dialect

/-- No initial value that is read is a real that is not finite. -/
theorem isFinite_readInitial (token : List Char) : (readInitial token).IsFinite := by
  unfold readInitial
  split
  · split
    · trivial
    · exact Literal.isFinite_ofToken _
  · exact Literal.isFinite_ofToken token

/-- A member that a text declares can be declared again if its initial value can stand behind its
type. -/
theorem Conforms.canDeclare_of_mem_readMembers {dialect : Dialect} (h : dialect.Conforms)
    {text : List Char} {members : List Member} (hread : dialect.readMembers text = .ok members)
    {member : Member} (hmem : member ∈ members)
    (hinitial : ∀ value, member.initial = some (.text value) →
      (Literal.text value).IsDeclarable member.type) : dialect.CanDeclare member := by
  obtain ⟨declaration, hdeclaration, type, htype, rfl⟩ := exists_of_mem_readMembers hread hmem
  obtain ⟨hname, hchars⟩ := Declaration.spec_of_mem_all hdeclaration
  have hleaf : DataType.Refines dialect.leaf dialect.leaf := h.refinesCanonical.self
  refine ⟨Member.isBuilt_of .., ?_, ?_, ?_, fun value hvalue => ?_⟩
  · change isIdentifier (String.ofList declaration.name).toList = true
    rwa [String.toList_ofList]
  · exact DataType.decodeWith_spellWith_of_decodeWith h.isNotation hleaf htype
  · refine h.forall_mem_writeType ?_
    exact (DataType.mem_text_of_decodeWith hleaf htype).imp fun name hname c hc =>
      hchars c (hname c hc)
  · cases value with
    | text value => exact hinitial value hvalue
    | bool value => trivial
    | int value => trivial
    | real value =>
      obtain ⟨original, horiginal, hfitted⟩ :=
        Option.mem_map.mp (Option.mem_filter_iff.mp hvalue).1
      obtain ⟨token, -, rfl⟩ := Option.mem_map.mp horiginal
      have hfinite := (isFinite_readInitial token).coerce type
      rw [hfitted] at hfinite
      exact hfinite

/-- A definition of the members that a text declares has distinct names, and its members can be
declared again if their initial values can. -/
theorem Conforms.canDeclare_of_pushAll {dialect : Dialect} (h : dialect.Conforms)
    {text : List Char} {members : List Member} (hread : dialect.readMembers text = .ok members)
    {name description : String}
    (htexts : ((Definition.bare name description).pushAll members).HasDeclarableTexts) :
    ((Definition.bare name description).pushAll members).name = name ∧
      ((Definition.bare name description).pushAll members).HasDistinctNames ∧
      ∀ member ∈ ((Definition.bare name description).pushAll members).members,
        dialect.CanDeclare member := by
  have hbare : (Definition.bare name description).HasDistinctNames := List.nodup_nil
  obtain ⟨hname, -, hdistinct, hmembers⟩ := Definition.pushAll_spec hbare members
  refine ⟨hname, hdistinct, fun member hmem => ?_⟩
  rcases hmembers member hmem with hnone | hmember
  · exact absurd hnone List.not_mem_nil
  · exact h.canDeclare_of_mem_readMembers hread hmember (htexts member hmem)

end Dialect

end StructuredText

end PlcTypes
