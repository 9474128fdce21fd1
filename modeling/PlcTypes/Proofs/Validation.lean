import PlcTypes.Proofs.Sound
import PlcTypes.Proofs.Yaml.Sound
import PlcTypes.Proofs.Yaml.Tree
import PlcTypes.Validation

/-!
# Documents without findings load whole

A check without findings makes sure of the texts that reading requires, and of distinct names, so
that no member takes the place of another. What is left to fail are the type spellings, and the first
bad one is reported. Keys are the exception: the check looks fields up by their keys and passes over
any other key, while reading takes the text of every key and so refuses one that is no scalar.
-/

namespace PlcTypes

open Text Yaml

namespace Validation

/-- A field has a text that is not empty if it has a text at all. -/
theorem nonEmptyText?_eq (key : String) (tree : Tree) : nonEmptyText? key tree =
    if tree.fieldText key = "" then none else some (tree.fieldText key) := by
  rw [nonEmptyText?, Tree.fieldText]
  cases (tree.field? key).bind Tree.string? with
  | none => rfl
  | some text =>
    rw [Option.filter_some, Option.getD_some]
    by_cases hempty : text = ""
    · simp [hempty]
    · simp [hempty]

/-- A name that may be left empty is without findings if it is an identifier. -/
theorem checkName_eq_nil_iff (name : String) :
    checkName (if name = "" then none else some name) = [] ↔ isIdentifier name.toList = true := by
  by_cases hname : name = ""
  · simp [hname, checkName, isIdentifier]
  · simp [hname, checkName]

variable {seen : List String} {position : ℕ}

/-- A member is without findings if it has a name and a type and the name is new. -/
theorem checkMember_eq_nil_iff {item : Tree} : checkMember seen position item = [] ↔
    item.fieldText "name" ≠ "" ∧ item.fieldText "type" ≠ "" ∧ item.fieldText "name" ∉ seen := by
  rw [checkMember, nonEmptyText?_eq, nonEmptyText?_eq]
  by_cases hname : item.fieldText "name" = ""
  · simp [hname]
  · by_cases htype : item.fieldText "type" = ""
    · simp [htype]
    · simp [hname, htype]

/-- Members are without findings if each has a name and a type and no name comes twice. -/
theorem checkMembers_eq_nil_iff {items : List Tree} : checkMembers seen position items = [] ↔
    (∀ item ∈ items, item.fieldText "name" ≠ "" ∧ item.fieldText "type" ≠ "") ∧
      (items.map (Tree.fieldText "name")).Nodup ∧
        ∀ name ∈ items.map (Tree.fieldText "name"), name ∉ seen := by
  induction items generalizing seen position with
  | nil => simp [checkMembers]
  | cons item others ih =>
    have hseen (hname : item.fieldText "name" ≠ "") :
        (nonEmptyText? "name" item).toList ++ seen = item.fieldText "name" :: seen := by
      rw [nonEmptyText?_eq, if_neg hname]
      rfl
    rw [checkMembers, List.append_eq_nil_iff, checkMember_eq_nil_iff, ih, List.map_cons,
      List.nodup_cons, List.forall_mem_cons, List.forall_mem_cons]
    constructor
    · rintro ⟨⟨hname, htype, hnew⟩, hothers, hnodup, hapart⟩
      rw [hseen hname] at hapart
      refine ⟨⟨⟨hname, htype⟩, hothers⟩, ⟨?_, hnodup⟩, hnew, ?_⟩
      · exact fun hmem => hapart _ hmem List.mem_cons_self
      · exact fun name hmem hin => hapart name hmem (List.mem_cons_of_mem _ hin)
    · rintro ⟨⟨⟨hname, htype⟩, hothers⟩, ⟨hfresh, hnodup⟩, hnew, hapart⟩
      rw [hseen hname]
      refine ⟨⟨hname, htype, hnew⟩, hothers, hnodup, fun name hmem hin => ?_⟩
      rcases List.mem_cons.mp hin with rfl | hin
      · exact hfresh hmem
      · exact hapart name hmem hin

/-- A document is without findings if it has an identifier for its name and a sequence of members that
are. -/
theorem checkTree_eq_nil_iff {tree : Tree} : checkTree tree = [] ↔
    isIdentifier (tree.fieldText "name").toList = true ∧
      ∃ items, (tree.field? "members").bind Tree.items? = some items ∧ checkMembers [] 0 items = [] := by
  rw [checkTree, List.append_eq_nil_iff, nonEmptyText?_eq, checkName_eq_nil_iff]
  cases (tree.field? "members").bind Tree.items? with
  | none => simp
  | some items => simp

end Validation

namespace Universal

variable {tree item : Tree} {items : List Tree} {key : String}

/-- Null or a text, without a tag. -/
def IsOptionalText : Tree → Prop
  | .scalar _ .null | .scalar _ .string => True
  | _ => False

/-- Null, a truth value, a number or a text, without a tag. -/
def IsOptionalLiteral : Tree → Prop
  | .scalar _ value => value ≠ .blank ∧ value ≠ .unreadable ∧ value ≠ .notNull
  | _ => False

/-- A member that has scalars for keys and leaves out its description and its initial value or has the
right kinds for them. -/
structure IsPlainMember (item : Tree) : Prop where
  keys : item.HasScalarKeys
  description : ∀ value ∈ item.field? "description", IsOptionalText value
  initial : ∀ value ∈ item.field? "default", IsOptionalLiteral value

/-- A document that has scalars for keys, that leaves out its description or has a text for it, and
whose members are plain. -/
structure IsPlain (tree : Tree) : Prop where
  keys : tree.HasScalarKeys
  description : ∀ value ∈ tree.field? "description", IsOptionalText value
  members : ∀ items ∈ (tree.field? "members").bind Tree.items?, ∀ item ∈ items, IsPlainMember item

/-- The member that an item of a document writes down. -/
def draftOf (item : Tree) : MemberDraft where
  name := item.fieldText "name"
  type := .spelled (item.fieldText "type")
  initial := (item.field? "default").bind Literal.ofTree?
  description := item.fieldText "description"

/-- The fields of a sound mapping with scalars for keys are found by their keys. -/
theorem exists_fields {value : Tree} (hsound : tree.isSound = true) (hkeys : tree.HasScalarKeys)
    (hfield : tree.field? key = some value) : ∃ fields, fields? tree = some fields ∧
      ∀ key, Scalar.ofPlain key.toList = .string → field? key fields = some (tree.field? key) := by
  obtain ⟨entries, hmapping, -⟩ := Tree.exists_of_field? hfield
  have hscalars := hkeys entries hmapping
  have hdiffer := (Tree.isSound_mapping hsound hmapping).1
  refine ⟨entries.map fun entry => (entry.1.label, entry.2), ?_, fun key hkey => ?_⟩
  · rw [fields?, hmapping]
    refine mapM_of_pure fun entry hmem => ?_
    obtain ⟨name, value⟩ := entry
    have hscalar : name.IsUntaggedScalar := hscalars _ hmem
    obtain ⟨text, kind, rfl, -⟩ := hscalar.exists_scalar
    rfl
  · have hfilter := Tree.filter_label hkey hscalars hdiffer
    have hpicked : (entries.map fun entry => (entry.1.label, entry.2)).filter (fun entry => entry.1 == key) =
        ((entries.find? fun entry => entry.1.label == key).map fun entry =>
          (entry.1.label, entry.2)).toList := by
      rw [List.filter_map]
      change (entries.filter fun entry => entry.1.label == key).map _ = _
      rw [hfilter]
      cases entries.find? fun entry => entry.1.label == key <;> rfl
    rw [field?, hpicked, Tree.field?_eq_find? hkey hmapping hscalars]
    cases entries.find? fun entry => entry.1.label == key <;> rfl

/-- A field with a text that is not empty is there. -/
theorem requiredText?_field? (h : tree.fieldText key ≠ "") :
    requiredText? (tree.field? key) = some (tree.fieldText key) := by
  obtain ⟨value, hfield, htext⟩ := Tree.exists_of_fieldText h
  rw [hfield, requiredText?, text?]
  rw [Tree.string?] at htext
  split at htext
  · rename_i text huntagged
    rw [huntagged, ← Option.some.inj htext]
  · simp at htext

/-- A text that may be left out is empty if it is. -/
theorem optionalText?_field? (h : ∀ value ∈ tree.field? key, IsOptionalText value) :
    optionalText? (tree.field? key) = some (tree.fieldText key) := by
  rw [Tree.fieldText]
  cases hfield : tree.field? key with
  | none => rfl
  | some value =>
    have hvalue := h value hfield
    cases value with
    | scalar text kind => cases kind <;> first | rfl | exact hvalue.elim
    | sequence items => exact hvalue.elim
    | mapping entries => exact hvalue.elim
    | tagged tag content => exact hvalue.elim

/-- An initial value that may be left out is none if it is. -/
theorem optionalLiteral?_field? (h : ∀ value ∈ tree.field? key, IsOptionalLiteral value) :
    optionalLiteral? (tree.field? key) = some ((tree.field? key).bind Literal.ofTree?) := by
  cases hfield : tree.field? key with
  | none => rfl
  | some value =>
    have hvalue := h value hfield
    cases value with
    | scalar text kind =>
      obtain ⟨hblank, hunreadable, hnotNull⟩ := hvalue
      cases kind with
      | blank => exact absurd rfl hblank
      | unreadable => exact absurd rfl hunreadable
      | notNull => exact absurd rfl hnotNull
      | null | bool value | int value | real value | string => rfl
    | sequence items => exact hvalue.elim
    | mapping entries => exact hvalue.elim
    | tagged tag content => exact hvalue.elim

/-- A sequence that may be left out is read as its items. -/
theorem optionalItems?_field? (h : (tree.field? key).bind Tree.items? = some items) :
    optionalItems? (tree.field? key) = some items := by
  obtain ⟨value, hfield, hitems⟩ := Option.bind_eq_some_iff.mp h
  have huntagged := Tree.items?_eq_some_iff.mp hitems
  rw [hfield, optionalItems?]
  · rw [huntagged]
  · rintro text rfl
    simp [Tree.untagged] at huntagged

/-- A sound and plain member with a name and a type is read as it is written down. -/
theorem member?_eq (hsound : item.isSound = true) (hplain : IsPlainMember item)
    (hname : item.fieldText "name" ≠ "") (htype : item.fieldText "type" ≠ "") :
    member? item = some (draftOf item) := by
  obtain ⟨value, hfield, -⟩ := Tree.exists_of_fieldText hname
  obtain ⟨fields, hfields, hfind⟩ := exists_fields hsound hplain.keys hfield
  simp only [member?, hfields, bind, Option.bind_some, hfind "name" (by decide),
    hfind "type" (by decide), hfind "default" (by decide), hfind "description" (by decide),
    requiredText?_field? hname, requiredText?_field? htype, optionalLiteral?_field? hplain.initial,
    optionalText?_field? hplain.description]
  rfl

/-- A sound and plain document with a name and members that have names and types is read as it is
written down. -/
theorem draft?_eq (hsound : tree.isSound = true) (hplain : IsPlain tree)
    (hname : tree.fieldText "name" ≠ "") (hitems : (tree.field? "members").bind Tree.items? = some items)
    (hmembers : ∀ item ∈ items, item.fieldText "name" ≠ "" ∧ item.fieldText "type" ≠ "") :
    draft? tree =
      some ⟨tree.fieldText "name", tree.fieldText "description", items.map draftOf⟩ := by
  obtain ⟨value, hfield, -⟩ := Tree.exists_of_fieldText hname
  obtain ⟨fields, hfields, hfind⟩ := exists_fields hsound hplain.keys hfield
  have hitemsSound : ∀ item ∈ items, item.isSound = true := by
    obtain ⟨members, hmember, hsequence⟩ := Option.bind_eq_some_iff.mp hitems
    exact Tree.isSound_of_items? (Tree.isSound_of_field? hsound hmember) hsequence
  have hdrafts : items.mapM member? = some (items.map draftOf) :=
    mapM_of_pure fun item hmem => member?_eq (hitemsSound item hmem)
      (hplain.members items hitems item hmem) (hmembers item hmem).1 (hmembers item hmem).2
  simp only [draft?, hfields, bind, Option.bind_some, hfind "name" (by decide),
    hfind "description" (by decide), hfind "members" (by decide), requiredText?_field? hname,
    optionalText?_field? hplain.description, optionalItems?_field? hitems, hdrafts]

/-- A member that cannot be built has a bad type spelling. -/
theorem buildMember_draftOf_eq_error {error : UniversalError}
    (h : buildMember (draftOf item) = .error error) :
    ∃ bound, DataType.ofSpelling (item.fieldText "type") = .error bound ∧
      error = .badType (item.fieldText "name") bound := by
  have hbuild : (draftOf item).build = (DataType.ofSpelling (item.fieldText "type")).map fun type =>
      .of (draftOf item).name type (draftOf item).initial (draftOf item).description := by
    change (DataType.ofSpelling (item.fieldText "type")).bind _ = _
    cases DataType.ofSpelling (item.fieldText "type") <;> rfl
  rw [buildMember, hbuild] at h
  cases htype : DataType.ofSpelling (item.fieldText "type") with
  | ok type => simp [htype, Except.map] at h
  | error bound =>
    rw [htype] at h
    exact ⟨bound, rfl, (Except.error.inj h).symm⟩

/-- A member that is built has a good type spelling and the name that was written down. -/
theorem exists_of_build_draftOf {member : Member} (h : (draftOf item).build = .ok member) :
    (∃ type, DataType.ofSpelling (item.fieldText "type") = .ok type) ∧
      member.name = item.fieldText "name" := by
  obtain ⟨type, htype, rfl⟩ := MemberDraft.exists_of_build h
  exact ⟨⟨type, htype⟩, rfl⟩

/-- Built members have the names that were written down. -/
theorem names_of_built {members : List Member}
    (h : List.Forall₂ (fun item member => (draftOf item).build = .ok member) items members) :
    members.map Member.name = items.map (Tree.fieldText "name") := by
  induction h with
  | nil => rfl
  | cons hfirst _ ih =>
    rw [List.map_cons, List.map_cons, (exists_of_build_draftOf hfirst).2, ih]

/-- The spelling of the item's type is the first bad one. -/
def IsFirstBadType (items : List Tree) (item : Tree) (bound : BoundError) : Prop :=
  ∃ before after, items = before ++ item :: after ∧
    (∀ earlier ∈ before, ∃ type, DataType.ofSpelling (earlier.fieldText "type") = .ok type) ∧
    DataType.ofSpelling (item.fieldText "type") = .error bound

/-- Written members of distinct names all become members in order, or the first with a bad type spelling
is the error. -/
theorem build_cases (name description : String) (hnames : (items.map (Tree.fieldText "name")).Nodup) :
    (∃ members, build ⟨name, description, items.map draftOf⟩ = .ok ⟨name, description, members⟩ ∧
      List.Forall₂ (fun item member => (draftOf item).build = .ok member) items members) ∨
    ∃ item bound, IsFirstBadType items item bound ∧
      build ⟨name, description, items.map draftOf⟩ =
        .error (.badType (item.fieldText "name") bound) := by
  rw [build]
  cases hrun : (items.map draftOf).mapM buildMember with
  | ok members =>
    have hbuilt : List.Forall₂ (fun item member => (draftOf item).build = .ok member) items members :=
      (List.forall₂_map_left_iff.mp (forall₂_of_mapM hrun)).imp fun _ _ => buildMember_eq_ok_iff.mp
    refine Or.inl ⟨members, ?_, hbuilt⟩
    rw [Except.map, Definition.bare_pushAll (names_of_built hbuilt ▸ hnames)]
  | error error =>
    obtain ⟨before, draft, after, hsplit, hearlier, hfails⟩ := exists_of_mapM_eq_error hrun
    obtain ⟨first, rest, rfl, rfl, hrest⟩ := List.map_eq_append_iff.mp hsplit
    obtain ⟨item, last, rfl, rfl, rfl⟩ := List.map_eq_cons_iff.mp hrest
    obtain ⟨bound, htype, rfl⟩ := buildMember_draftOf_eq_error hfails
    refine Or.inr ⟨item, bound, ⟨first, last, rfl, fun earlier hmem => ?_, htype⟩, rfl⟩
    obtain ⟨member, hmember⟩ := hearlier (draftOf earlier) (List.mem_map_of_mem hmem)
    exact (exists_of_build_draftOf (buildMember_eq_ok_iff.mp hmember)).1

end Universal

namespace Definition

open Universal Validation

/-- A plain document without findings is read as a definition with its name, its description and all its
members in order, unless the spelling of a type is bad; then the first member with such a spelling is the
error. -/
theorem ofUniversal_of_valid {codec : Codec} (hcodec : codec.ReadsAlike) {text : String} {tree : Tree}
    (hread : codec.readSound? text = some tree) (hplain : IsPlain tree)
    (hvalid : checkText text codec = []) :
    ∃ items, (tree.field? "members").bind Tree.items? = some items ∧
      ((∃ d, ofUniversal text codec = .ok d ∧ d.name = tree.fieldText "name" ∧
        d.description = tree.fieldText "description" ∧
        d.members.map Member.name = items.map (Tree.fieldText "name") ∧
        List.Forall₂ (fun item member => (draftOf item).build = .ok member) items d.members) ∨
      ∃ item bound, IsFirstBadType items item bound ∧
        ofUniversal text codec = .error (.badType (item.fieldText "name") bound)) := by
  obtain ⟨hread', hsound⟩ := hcodec text tree hread
  rw [checkText, hread] at hvalid
  obtain ⟨hidentifier, items, hitems, hmembers⟩ := checkTree_eq_nil_iff.mp hvalid
  obtain ⟨hwritten, hnames, -⟩ := checkMembers_eq_nil_iff.mp hmembers
  have hname : tree.fieldText "name" ≠ "" := by
    intro hempty
    rw [hempty] at hidentifier
    exact absurd hidentifier (by decide)
  have hload : ofUniversal text codec =
      build ⟨tree.fieldText "name", tree.fieldText "description", items.map draftOf⟩ := by
    rw [ofUniversal, hread']
    dsimp only
    rw [ofTree, draft?_eq hsound hplain hname hitems hwritten]
  refine ⟨items, hitems, ?_⟩
  rw [hload]
  rcases build_cases (tree.fieldText "name") (tree.fieldText "description") hnames with
    ⟨members, hbuild, hbuilt⟩ | hfails
  · exact Or.inl ⟨_, hbuild, rfl, rfl, names_of_built hbuilt, hbuilt⟩
  · exact Or.inr hfails

/-- A document with an initial value of its own kind, an empty description, and a field of no meaning. -/
def tankText : String :=
  "name: Tank\ndescription: ~\nmembers:\n- name: levels\n  type: ARRAY[0..3] OF REAL\n" ++
    "- name: full\n  type: BOOL\n  default: true\n  description: '1'\n2: x\n"

/-- The first member of the tank. -/
def levelsTree : Tree :=
  .mapping [(.ofString "name", .ofString "levels"), (.ofString "type", .ofString "ARRAY[0..3] OF REAL")]

/-- The second member of the tank. -/
def fullTree : Tree :=
  .mapping [(.ofString "name", .ofString "full"), (.ofString "type", .ofString "BOOL"),
    (.ofString "default", .ofBool true), (.ofString "description", .ofString "1")]

/-- The document of the tank. -/
def tankTree : Tree :=
  .mapping [(.ofString "name", .ofString "Tank"), (.ofString "description", .scalar "~" .null),
    (.ofString "members", .sequence [levelsTree, fullTree]), (.ofInt 2, .ofString "x")]

/-- The document of the tank is plain. -/
theorem isPlain_tankTree : IsPlain tankTree where
  keys := Tree.hasScalarKeys_mapping_iff.mpr (by decide)
  description := by
    intro value hvalue
    obtain rfl : Tree.scalar "~" .null = value := Option.some.inj hvalue
    trivial
  members := by
    intro items hitems
    obtain rfl : [levelsTree, fullTree] = items := Option.some.inj hitems
    refine List.forall_mem_cons.mpr ⟨⟨?_, ?_, ?_⟩, List.forall_mem_singleton.mpr ⟨?_, ?_, ?_⟩⟩
    · exact Tree.hasScalarKeys_mapping_iff.mpr (by decide)
    · exact fun value hvalue => absurd hvalue (Option.not_mem_none value)
    · exact fun value hvalue => absurd hvalue (Option.not_mem_none value)
    · exact Tree.hasScalarKeys_mapping_iff.mpr (by decide)
    · intro value hvalue
      obtain rfl : Tree.ofString "1" = value := Option.some.inj hvalue
      trivial
    · intro value hvalue
      obtain rfl : Tree.ofBool true = value := Option.some.inj hvalue
      exact ⟨nofun, nofun, nofun⟩

/-- The tank is read whole. -/
theorem ofUniversal_tank : ∃ items, (tankTree.field? "members").bind Tree.items? = some items ∧
    ((∃ d, ofUniversal tankText = .ok d ∧ d.name = "Tank" ∧ d.description = "" ∧
      d.members.map Member.name = items.map (Tree.fieldText "name") ∧
      List.Forall₂ (fun item member => (draftOf item).build = .ok member) items d.members) ∨
    ∃ item bound, IsFirstBadType items item bound ∧
      ofUniversal tankText = .error (.badType (item.fieldText "name") bound)) :=
  have hread : Codec.standard.readSound? tankText = some tankTree := by decide +kernel
  ofUniversal_of_valid Codec.readsAlike_standard hread isPlain_tankTree (by decide +kernel)

/-- A document with a sequence for one of its keys. -/
def keyedText : String := "name: T\nmembers: []\n? [a]\n: b\n"

/-- A document with a key that is no scalar is without findings but cannot be read. -/
theorem valid_keyed_malformed : Codec.standard.readSound? keyedText = some (.mapping
      [(.ofString "name", .ofString "T"), (.ofString "members", .sequence []),
        (.sequence [.ofString "a"], .ofString "b")]) ∧
    checkText keyedText = [] ∧ ofUniversal keyedText = .error .malformed := by
  decide +kernel

end Definition

end PlcTypes
