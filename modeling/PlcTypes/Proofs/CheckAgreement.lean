import PlcTypes.Proofs.Reachable
import PlcTypes.Proofs.Validation

/-!
# The two checks of a definition

A definition can be checked itself or by its universal document. The names of a reachable definition are
distinct, so neither check finds a duplicate. What is left to the first one is the form of all names, while
the second one takes any text that is not empty for a member's name and for its type. So a definition
without findings has a document without findings, unless a member refers to a type without a name.
-/

namespace PlcTypes

open Text Yaml

/-- Only a reference to a type without a name is spelled by nothing. -/
theorem DataType.spelling_eq_empty_iff (type : DataType) : type.spelling = "" ↔ type = .named "" := by
  cases type with
  | scalar kind => cases kind <;> decide
  | array base lower upper => simp [spelling, spellWith]
  | named name => simp [spelling, spellWith]

namespace Validation

variable {d : Definition} {members : List Member} {seen : List String}

/-- Where no name comes twice, only names that are no identifiers are found. -/
theorem checkNames_of_nodup (hnames : (members.map Member.name).Nodup)
    (hnew : ∀ name ∈ members.map Member.name, name ∉ seen) : checkNames seen members =
      (members.filter fun member => !isIdentifier member.name.toList).map fun member =>
        .badMemberName member.name := by
  induction members generalizing seen with
  | nil => rfl
  | cons member others ih =>
    rw [List.map_cons, List.nodup_cons] at hnames
    rw [List.map_cons, List.forall_mem_cons] at hnew
    have hothers : ∀ name ∈ others.map Member.name, name ∉ member.name :: seen := by
      intro name hmem hseen
      rcases List.mem_cons.mp hseen with rfl | hseen
      · exact hnames.1 hmem
      · exact hnew.2 name hmem hseen
    rw [checkNames, if_neg hnew.1, ih hnames.2 hothers, List.append_nil]
    by_cases hname : isIdentifier member.name.toList = true
    · rw [if_pos hname, List.filter_cons_of_neg (by simp [hname]), List.nil_append]
    · rw [if_neg hname, List.filter_cons_of_pos (by simpa using hname), List.map_cons, List.singleton_append]

/-- The findings about a definition with distinct names are those about the form of its names. -/
theorem checkDefinition_of_hasDistinctNames (h : d.HasDistinctNames) : checkDefinition d =
    checkName (if d.name = "" then none else some d.name) ++
      (d.members.filter fun member => !isIdentifier member.name.toList).map fun member =>
        .badMemberName member.name := by
  rw [checkDefinition, checkNames_of_nodup h fun _ _ => List.not_mem_nil]
  simp only [String.isEmpty_iff]

/-- No finding about the name of a type is a duplicate. -/
theorem duplicate_notMem_checkName (name : String) (typeName : Option String) :
    Finding.duplicate name ∉ checkName typeName := by
  cases typeName with
  | none => simp [checkName]
  | some typeName =>
    rw [checkName]
    split <;> simp

/-- A definition with distinct names has no duplicates. -/
theorem duplicate_notMem_checkDefinition (h : d.HasDistinctNames) (name : String) :
    Finding.duplicate name ∉ checkDefinition d := by
  rw [checkDefinition_of_hasDistinctNames h, List.mem_append, not_or]
  exact ⟨duplicate_notMem_checkName name _, by simp⟩

/-- A definition with distinct names is without findings if all its names are identifiers. -/
theorem checkDefinition_eq_nil_iff (h : d.HasDistinctNames) : checkDefinition d = [] ↔
    isIdentifier d.name.toList = true ∧ ∀ member ∈ d.members, isIdentifier member.name.toList = true := by
  rw [checkDefinition_of_hasDistinctNames h, List.append_eq_nil_iff, checkName_eq_nil_iff,
    List.map_eq_nil_iff, List.filter_eq_nil_iff]
  simp only [Bool.not_eq_true', Bool.not_eq_false]

/-- The document tree of a definition with distinct names is without findings if the name is an identifier
and no member has an empty name or an empty type spelling. -/
theorem checkTree_toTree_eq_nil_iff (h : d.HasDistinctNames) : checkTree d.toTree = [] ↔
    isIdentifier d.name.toList = true ∧
      ∀ member ∈ d.members, member.name ≠ "" ∧ member.type.spelling ≠ "" := by
  have hname : d.toTree.fieldText "name" = d.name := rfl
  have hitems : (d.toTree.field? "members").bind Tree.items? = some (d.members.map Member.toTree) := rfl
  have hnames : (d.members.map Member.toTree).map (Tree.fieldText "name") = d.members.map Member.name := by
    rw [List.map_map]
    rfl
  rw [checkTree_eq_nil_iff, hname, hitems]
  simp only [Option.some.injEq, exists_eq_left', checkMembers_eq_nil_iff, List.forall_mem_map, hnames,
    List.not_mem_nil, not_false_eq_true, implies_true, and_true]
  exact and_congr_right fun _ => and_iff_left h

/-- A reachable definition has no duplicates, and it is without findings if all its names are identifiers.
Its universal document, if it reads back as the tree that was printed, is without findings if the name is
an identifier and no member has an empty name or an empty type spelling. So a definition without findings
has a document without findings, unless a member refers to a type without a name. -/
theorem checks_agree {codec : Codec} (hd : d.Reachable) (hprint : codec.ReadsBackSound d.toTree) :
    (∀ name, Finding.duplicate name ∉ checkDefinition d) ∧
    (checkDefinition d = [] ↔ isIdentifier d.name.toList = true ∧
      ∀ member ∈ d.members, isIdentifier member.name.toList = true) ∧
    (checkText (d.toUniversal codec) codec = [] ↔ isIdentifier d.name.toList = true ∧
      ∀ member ∈ d.members, member.name ≠ "" ∧ member.type.spelling ≠ "") ∧
    (checkDefinition d = [] → (checkText (d.toUniversal codec) codec = [] ↔
      ∀ member ∈ d.members, member.type ≠ .named "")) := by
  have hnames := hd.isBuilt.1
  have hdefinition := checkDefinition_eq_nil_iff hnames
  have hdocument : checkText (d.toUniversal codec) codec = [] ↔ isIdentifier d.name.toList = true ∧
      ∀ member ∈ d.members, member.name ≠ "" ∧ member.type.spelling ≠ "" := by
    have hread : codec.readSound? (d.toUniversal codec) = some d.toTree := hprint
    rw [checkText, hread]
    exact checkTree_toTree_eq_nil_iff hnames
  refine ⟨duplicate_notMem_checkDefinition hnames, hdefinition, hdocument, fun hvalid => ?_⟩
  obtain ⟨hname, hidentifiers⟩ := hdefinition.mp hvalid
  rw [hdocument, and_iff_right hname]
  refine forall₂_congr fun member hmem => ?_
  have hne : member.name ≠ "" := by
    intro hempty
    simpa [hempty, isIdentifier] using hidentifiers member hmem
  rw [and_iff_right hne, ne_eq, DataType.spelling_eq_empty_iff]

/-- A unit that doses at a rate. -/
def dosingUnit : Definition := (Definition.bare "DosingUnit" "").withMember "rate" (.scalar .real) none ""

/-- The unit with a member that refers to a type without a name. -/
def untypedUnit : Definition := dosingUnit.withMember "recipe" (.named "") none "by name"

/-- The unit is without findings in both forms, and with the member that has no type in one of them. -/
theorem dosingUnit_checks : (checkDefinition dosingUnit = [] ∧ checkText dosingUnit.toUniversal = []) ∧
    checkDefinition untypedUnit = [] ∧ checkText untypedUnit.toUniversal ≠ [] := by
  have hunit : dosingUnit.Reachable := .withMember (.bare "DosingUnit" "") ..
  have huntypedUnit : untypedUnit.Reachable := hunit.withMember ..
  have hprint : Codec.standard.ReadsBackSound dosingUnit.toTree := by decide +kernel
  have huntypedPrint : Codec.standard.ReadsBackSound untypedUnit.toTree := by decide +kernel
  obtain ⟨-, hdefinition, -, hboth⟩ := checks_agree hunit hprint
  obtain ⟨-, huntyped, hdocument, -⟩ := checks_agree huntypedUnit huntypedPrint
  have hvalid : checkDefinition dosingUnit = [] := hdefinition.mpr (by decide +kernel)
  refine ⟨⟨hvalid, (hboth hvalid).mpr (by decide +kernel)⟩, huntyped.mpr (by decide +kernel), ?_⟩
  rw [Ne, hdocument]
  decide +kernel

end Validation

end PlcTypes
