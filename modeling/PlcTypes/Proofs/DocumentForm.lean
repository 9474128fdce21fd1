import Mathlib.Data.Set.Card
import PlcTypes.Proofs.Validation

/-!
# The form of a document without findings

What the check of a document accepts can be said without the check: a mapping with an identifier for
its name and a sequence of mappings that have names and types, where no name comes twice. Members may
be anything when duplicates are counted; the count follows from what the loop over the members keeps:
the duplicates found and the names not seen before make up all names.
-/

namespace PlcTypes

open Text Yaml

namespace Yaml.Tree

mutual

/-- Whether there is no tag anywhere in a tree. -/
def isTagFree : Tree → Bool
  | scalar _ _ => true
  | sequence items => itemsAreTagFree items
  | mapping entries => entriesAreTagFree entries
  | tagged _ _ => false

/-- Whether there is no tag in any tree of a list. -/
def itemsAreTagFree : List Tree → Bool
  | [] => true
  | item :: items => item.isTagFree && itemsAreTagFree items

/-- Whether there is no tag in any key or value of a list of entries. -/
def entriesAreTagFree : List (Tree × Tree) → Bool
  | [] => true
  | (key, value) :: entries => key.isTagFree && value.isTagFree && entriesAreTagFree entries

end

/-- The tree is a mapping with an entry of this key, a text, and this value. -/
def HasEntry (tree : Tree) (key : String) (value : Tree) : Prop :=
  ∃ entries, tree = mapping entries ∧ (ofString key, value) ∈ entries

variable {tree value : Tree} {key text : String} {items : List Tree} {entries : List (Tree × Tree)}

/-- The items of a sequence without tags have none. -/
theorem itemsAreTagFree_iff :
    itemsAreTagFree items = true ↔ ∀ item ∈ items, item.isTagFree = true := by
  induction items with
  | nil => simp [itemsAreTagFree]
  | cons item others ih => simp [itemsAreTagFree, ih]

/-- The values of a mapping without tags have none. -/
theorem isTagFree_of_mem_entries {entry : Tree × Tree} (h : entriesAreTagFree entries = true)
    (hmem : entry ∈ entries) : entry.2.isTagFree = true := by
  induction entries with
  | nil => exact absurd hmem List.not_mem_nil
  | cons first others ih =>
    obtain ⟨name, content⟩ := first
    rw [entriesAreTagFree, Bool.and_eq_true, Bool.and_eq_true] at h
    rcases List.mem_cons.mp hmem with rfl | hmem
    · exact h.1.2
    · exact ih h.2 hmem

/-- Without tags there is nothing to take off. -/
theorem untagged_of_isTagFree (h : tree.isTagFree = true) : tree.untagged = tree := by
  cases tree with
  | scalar text value => rfl
  | sequence items => rfl
  | mapping entries => rfl
  | tagged tag content => simp [isTagFree] at h

/-- Without tags only a text has a text. -/
theorem string?_eq_some_iff (h : tree.isTagFree = true) :
    tree.string? = some text ↔ tree = ofString text := by
  rw [string?, untagged_of_isTagFree h, ofString]
  split
  · simp
  · rename_i hother
    simp only [reduceCtorEq, false_iff]
    exact hother text

/-- An entry of the key is the field. -/
theorem field?_cons_self : (mapping ((ofString key, value) :: entries)).field? key = some value := by
  simp [field?, untagged, ofString]

/-- An entry of another key is passed over. -/
theorem field?_cons_of_ne {name : Tree} (h : name ≠ ofString key) :
    (mapping ((name, value) :: entries)).field? key = (mapping entries).field? key := by
  change Option.map _ (List.find? _ _) = Option.map _ (List.find? _ _)
  rw [List.find?_cons_of_neg]
  dsimp only
  split
  · rename_i text
    have htext : text ≠ key := fun heq => h (heq ▸ rfl)
    simpa using htext
  · exact Bool.false_ne_true

/-- A field is looked up by the entry of its key, which differs from all others. -/
theorem field?_mapping_eq_some_iff (hdiffer : keysDiffer entries = true) :
    (mapping entries).field? key = some value ↔ (ofString key, value) ∈ entries := by
  induction entries with
  | nil => simp [field?, untagged]
  | cons entry others ih =>
    obtain ⟨name, content⟩ := entry
    rw [keysDiffer, Bool.and_eq_true, List.all_eq_true] at hdiffer
    obtain ⟨hapart, hothers⟩ := hdiffer
    rw [List.mem_cons, Prod.mk.injEq]
    by_cases hname : name = ofString key
    · subst hname
      rw [field?_cons_self, Option.some.injEq]
      constructor
      · exact fun heq => .inl ⟨rfl, heq.symm⟩
      · rintro (⟨-, rfl⟩ | hmem)
        · rfl
        · have hsame := hapart _ hmem
          simp [ofString, same, sameScalar] at hsame
    · rw [field?_cons_of_ne hname, ih hothers]
      constructor
      · exact .inr
      · rintro (⟨heq, -⟩ | hmem)
        · exact absurd heq.symm hname
        · exact hmem

/-- Without tags a field is found if the mapping has an entry of the key. -/
theorem field?_eq_some_iff (hsound : tree.isSound = true) (hfree : tree.isTagFree = true) :
    tree.field? key = some value ↔ tree.HasEntry key value := by
  cases tree with
  | mapping entries =>
    rw [field?_mapping_eq_some_iff (isSound_mapping hsound rfl).1]
    constructor
    · exact fun hmem => ⟨entries, rfl, hmem⟩
    · rintro ⟨others, heq, hmem⟩
      rwa [mapping.inj heq]
  | scalar text kind => simp [field?, untagged, HasEntry]
  | sequence items => simp [field?, untagged, HasEntry]
  | tagged tag content => simp [Tree.isTagFree] at hfree

/-- What a mapping without tags has for a key is without tags. -/
theorem HasEntry.isTagFree (h : tree.HasEntry key value) (hfree : tree.isTagFree = true) :
    value.isTagFree = true := by
  obtain ⟨entries, rfl, hmem⟩ := h
  simp only [Tree.isTagFree] at hfree
  exact isTagFree_of_mem_entries hfree hmem

/-- Without tags the items of a field are those of the sequence that the key has. -/
theorem bind_items?_eq_some_iff (hsound : tree.isSound = true) (hfree : tree.isTagFree = true) :
    (tree.field? key).bind items? = some items ↔ tree.HasEntry key (sequence items) := by
  rw [Option.bind_eq_some_iff]
  simp only [field?_eq_some_iff hsound hfree, items?_eq_some_iff]
  constructor
  · rintro ⟨value, hentry, hvalue⟩
    rw [untagged_of_isTagFree (hentry.isTagFree hfree)] at hvalue
    exact hvalue ▸ hentry
  · exact fun hentry => ⟨_, hentry, rfl⟩

/-- Without tags a text that is not empty is that of a field if the key has it. -/
theorem fieldText_eq_iff (hsound : tree.isSound = true) (hfree : tree.isTagFree = true)
    (htext : text ≠ "") : tree.fieldText key = text ↔ tree.HasEntry key (ofString text) := by
  rw [← field?_eq_some_iff hsound hfree]
  constructor
  · rintro rfl
    obtain ⟨value, hfield, hvalue⟩ := exists_of_fieldText htext
    have hentry := (field?_eq_some_iff hsound hfree).mp hfield
    rw [hfield, (string?_eq_some_iff (hentry.isTagFree hfree)).mp hvalue]
  · intro hfield
    rw [fieldText, hfield]
    rfl

end Yaml.Tree

namespace Validation

/-- The tree is a mapping that has a name for a member. -/
def IsNamed (name : String) (item : Tree) : Prop := name ≠ "" ∧ item.HasEntry "name" (.ofString name)

/-- The tree is a mapping that has a name and a type for a member. -/
def IsMember (name : String) (item : Tree) : Prop :=
  IsNamed name item ∧ ∃ type, type ≠ "" ∧ item.HasEntry "type" (.ofString type)

/-- The tree is a mapping with an identifier for its name and a sequence of members with different
names. -/
def IsDefinition (tree : Tree) : Prop :=
  ∃ name items names, tree.HasEntry "name" (.ofString name) ∧ isIdentifier name.toList = true ∧
    tree.HasEntry "members" (.sequence items) ∧ List.Forall₂ IsMember names items ∧ names.Nodup

variable {tree item : Tree} {items : List Tree} {name : String}

/-- Without tags a member is named by the text in its field for the name. -/
theorem isNamed_iff (hsound : item.isSound = true) (hfree : item.isTagFree = true) :
    IsNamed name item ↔ nonEmptyText? "name" item = some name := by
  rw [nonEmptyText?_eq, IsNamed]
  constructor
  · rintro ⟨hname, hentry⟩
    obtain rfl := (Tree.fieldText_eq_iff hsound hfree hname).mpr hentry
    rw [if_neg hname]
  · intro htext
    split_ifs at htext with hempty
    obtain rfl := Option.some.inj htext
    exact ⟨hempty, (Tree.fieldText_eq_iff hsound hfree hempty).mp rfl⟩

/-- Without tags a member has the texts of its fields for its name and its type. -/
theorem isMember_iff (hsound : item.isSound = true) (hfree : item.isTagFree = true) :
    IsMember name item ↔
      item.fieldText "name" = name ∧ item.fieldText "name" ≠ "" ∧ item.fieldText "type" ≠ "" := by
  rw [IsMember, isNamed_iff hsound hfree, nonEmptyText?_eq]
  constructor
  · rintro ⟨hname, type, htype, hentry⟩
    split_ifs at hname with hempty
    obtain rfl := (Tree.fieldText_eq_iff hsound hfree htype).mpr hentry
    exact ⟨Option.some.inj hname, hempty, htype⟩
  · rintro ⟨rfl, hname, htype⟩
    rw [if_neg hname]
    exact ⟨rfl, _, htype, (Tree.fieldText_eq_iff hsound hfree htype).mp rfl⟩

/-- Items without tags are members of different names if and only if each of them has a name and a type
and no name comes twice. -/
theorem exists_forall₂_isMember_iff (hsound : ∀ item ∈ items, item.isSound = true)
    (hfree : ∀ item ∈ items, item.isTagFree = true) :
    (∃ names, List.Forall₂ IsMember names items ∧ names.Nodup) ↔
      (∀ item ∈ items, item.fieldText "name" ≠ "" ∧ item.fieldText "type" ≠ "") ∧
        (items.map (Tree.fieldText "name")).Nodup := by
  have hmembers (names : List String) : List.Forall₂ IsMember names items ↔
      names = items.map (Tree.fieldText "name") ∧
        ∀ item ∈ items, item.fieldText "name" ≠ "" ∧ item.fieldText "type" ≠ "" := by
    induction items generalizing names with
    | nil => simp
    | cons item others ih =>
      rw [List.forall_mem_cons] at hsound hfree
      rw [List.map_cons, List.forall_mem_cons]
      cases names with
      | nil => simp
      | cons name names =>
        rw [List.forall₂_cons, isMember_iff hsound.1 hfree.1, ih hsound.2 hfree.2, List.cons.injEq]
        constructor
        · rintro ⟨⟨hname, hitem⟩, hnames, hothers⟩
          exact ⟨⟨hname.symm, hnames⟩, hitem, hothers⟩
        · rintro ⟨⟨hname, hnames⟩, hitem, hothers⟩
          exact ⟨⟨hname.symm, hitem⟩, hnames, hothers⟩
  constructor
  · rintro ⟨names, hall, hnodup⟩
    obtain ⟨rfl, hitems⟩ := (hmembers names).mp hall
    exact ⟨hitems, hnodup⟩
  · rintro ⟨hitems, hnodup⟩
    exact ⟨_, (hmembers _).mpr ⟨rfl, hitems⟩, hnodup⟩

/-- A finding of a name that comes again. -/
def isDuplicate : Finding → Bool
  | .duplicate _ => true
  | _ => false

/-- The names that items of a sequence have. -/
def namesOf (items : List Tree) : List String := items.filterMap (nonEmptyText? "name")

variable {seen : List String} {position : ℕ}

/-- The name of the first item stands before the others. -/
theorem namesOf_cons : namesOf (item :: items) = (nonEmptyText? "name" item).toList ++ namesOf items := by
  rw [namesOf, List.filterMap_cons]
  cases nonEmptyText? "name" item with
  | none => rfl
  | some name => rfl

/-- The name of a type is never found to come again. -/
theorem countP_checkName (name : Option String) : (checkName name).countP isDuplicate = 0 := by
  cases name with
  | none => rfl
  | some name =>
    rw [checkName]
    split
    · rfl
    · rfl

/-- A member is found to come again if its name was seen. -/
theorem countP_checkMember : (checkMember seen position item).countP isDuplicate =
    (nonEmptyText? "name" item).toList.countP (· ∈ seen) := by
  rw [checkMember, List.countP_append, List.countP_append]
  have hnameless : (if (nonEmptyText? "name" item).isNone then
      [Finding.noMemberName position] else []).countP isDuplicate = 0 := by
    split <;> rfl
  have htypeless (label : String) : (if (nonEmptyText? "type" item).isNone then
      [Finding.noMemberType label] else []).countP isDuplicate = 0 := by
    split <;> rfl
  rw [hnameless, htypeless]
  cases nonEmptyText? "name" item with
  | none => rfl
  | some name => by_cases hseen : name ∈ seen <;> simp [hseen, isDuplicate]

/-- The first of some names was seen or is one more that was not seen before. -/
theorem card_names_cons (name : String) (names seen : List String) :
    [name].countP (· ∈ seen) + ((name :: names).toFinset \ seen.toFinset).card =
      (names.toFinset \ (name :: seen).toFinset).card + 1 := by
  rw [List.countP_singleton, List.toFinset_cons, List.toFinset_cons]
  by_cases hseen : name ∈ seen
  · have hmem : name ∈ seen.toFinset := List.mem_toFinset.mpr hseen
    rw [if_pos (by simpa using hseen), Finset.insert_sdiff_of_mem _ hmem, Finset.insert_eq_of_mem hmem,
      Nat.add_comm]
  · have hnew : name ∉ seen.toFinset := mt List.mem_toFinset.mp hseen
    have herase : insert name (names.toFinset \ seen.toFinset) =
        insert name ((names.toFinset \ seen.toFinset).erase name) := by
      ext other
      by_cases hother : other = name <;> simp [hother]
    rw [if_neg (by simpa using hseen), Finset.insert_sdiff_of_notMem _ hnew, Finset.sdiff_insert, herase,
      Finset.card_insert_of_notMem (Finset.notMem_erase name _), Nat.zero_add]

/-- What is found to come again and the names that were not seen before make up all names. -/
theorem countP_checkMembers (seen : List String) (position : ℕ) (items : List Tree) :
    (checkMembers seen position items).countP isDuplicate +
      ((namesOf items).toFinset \ seen.toFinset).card = (namesOf items).length := by
  induction items generalizing seen position with
  | nil => simp [checkMembers, namesOf]
  | cons item others ih =>
    rw [checkMembers, List.countP_append, countP_checkMember, namesOf_cons]
    cases nonEmptyText? "name" item with
    | none => simpa using ih seen (position + 1)
    | some name =>
      have hfirst := card_names_cons name (namesOf others) seen
      have hothers := ih (name :: seen) (position + 1)
      simp only [Option.toList_some, List.singleton_append, List.length_cons]
      omega

/-- The names of items without tags are those that name an item. -/
theorem mem_namesOf_iff (hsound : ∀ item ∈ items, item.isSound = true)
    (hfree : ∀ item ∈ items, item.isTagFree = true) :
    name ∈ namesOf items ↔ ∃ item ∈ items, IsNamed name item := by
  rw [namesOf, List.mem_filterMap]
  refine exists_congr fun item => and_congr_right fun hmem => ?_
  rw [isNamed_iff (hsound item hmem) (hfree item hmem)]

open Classical in
/-- The names that items without tags have are as many as the items that are named. -/
theorem length_namesOf (hsound : ∀ item ∈ items, item.isSound = true)
    (hfree : ∀ item ∈ items, item.isTagFree = true) :
    (namesOf items).length = items.countP fun item => ∃ name, IsNamed name item := by
  rw [namesOf, List.length_filterMap_eq_countP]
  refine List.countP_congr fun item hmem => ?_
  rw [Option.isSome_iff_exists, decide_eq_true_iff]
  exact exists_congr fun name => (isNamed_iff (hsound item hmem) (hfree item hmem)).symm

open Classical in
/-- A document without tags is without findings if and only if it has the form of a definition. Whatever
its members are, the duplicates that are found and the different names make up the members that are
named. -/
theorem checkTree_form (hsound : tree.isSound = true) (hfree : tree.isTagFree = true) :
    (checkTree tree = [] ↔ IsDefinition tree) ∧
      ∀ items, tree.HasEntry "members" (.sequence items) →
        (checkTree tree).countP isDuplicate + {name | ∃ item ∈ items, IsNamed name item}.ncard =
          items.countP fun item => ∃ name, IsNamed name item := by
  have hfield (items : List Tree) : (tree.field? "members").bind Tree.items? = some items ↔
      tree.HasEntry "members" (.sequence items) := Tree.bind_items?_eq_some_iff hsound hfree
  have hitems {items : List Tree} (h : tree.HasEntry "members" (.sequence items)) :
      (∀ item ∈ items, item.isSound = true) ∧ ∀ item ∈ items, item.isTagFree = true := by
    obtain ⟨value, hvalue, hsequence⟩ := Option.bind_eq_some_iff.mp ((hfield items).mpr h)
    exact ⟨Tree.isSound_of_items? (Tree.isSound_of_field? hsound hvalue) hsequence,
      Tree.itemsAreTagFree_iff.mp (by simpa only [Tree.isTagFree] using h.isTagFree hfree)⟩
  refine ⟨?_, fun items hmembers => ?_⟩
  · rw [checkTree_eq_nil_iff]
    constructor
    · rintro ⟨hname, items, hmembers, hnil⟩
      rw [hfield] at hmembers
      rw [checkMembers_eq_nil_iff] at hnil
      have hsome : tree.fieldText "name" ≠ "" := fun hempty => by simp [hempty, isIdentifier] at hname
      obtain ⟨names, hall, hnodup⟩ := (exists_forall₂_isMember_iff (hitems hmembers).1
        (hitems hmembers).2).mpr ⟨hnil.1, hnil.2.1⟩
      exact ⟨_, items, names, (Tree.fieldText_eq_iff hsound hfree hsome).mp rfl, hname, hmembers, hall,
        hnodup⟩
    · rintro ⟨name, items, names, hentry, hname, hmembers, hall, hnodup⟩
      have hsome : name ≠ "" := fun hempty => by simp [hempty, isIdentifier] at hname
      obtain ⟨htexts, hdiffer⟩ := (exists_forall₂_isMember_iff (hitems hmembers).1
        (hitems hmembers).2).mp ⟨names, hall, hnodup⟩
      rw [(Tree.fieldText_eq_iff hsound hfree hsome).mpr hentry]
      exact ⟨hname, items, (hfield items).mpr hmembers, checkMembers_eq_nil_iff.mpr
        ⟨htexts, hdiffer, fun _ _ => List.not_mem_nil⟩⟩
  · have hnames : {name | ∃ item ∈ items, IsNamed name item} =
        ((namesOf items).toFinset : Set String) := by
      ext name
      rw [Set.mem_ofPred_eq, List.coe_toFinset, Set.mem_ofPred_eq,
        mem_namesOf_iff (hitems hmembers).1 (hitems hmembers).2]
    have hcount := countP_checkMembers [] 0 items
    rw [List.toFinset_nil, Finset.sdiff_empty] at hcount
    rw [checkTree, (hfield items).mpr hmembers, List.countP_append, countP_checkName, Nat.zero_add, hnames,
      Set.ncard_coe_finset, hcount, length_namesOf (hitems hmembers).1 (hitems hmembers).2]

/-- A document with a name that comes twice, a member without a type and items that are no members. -/
def repeatedNames : Tree :=
  .ofFields [("name", .ofString "Pump"), ("members", .sequence
    [.ofFields [("name", .ofString "Speed"), ("type", .ofString "INT")],
      .ofFields [("name", .ofString "Speed"), ("type", .ofString "REAL")],
      .ofFields [("name", .ofString "Level")], .ofString "Level", .ofFields [("name", .ofString "")],
      .ofFields [("type", .ofString "INT"), ("name", .sequence [])], .null])]

open Classical in
/-- One of the three members that are named has the name of another. -/
theorem repeatedNames_form : repeatedNames.isSound = true ∧ repeatedNames.isTagFree = true ∧
    (checkTree repeatedNames).map Finding.message =
      ["Duplicate member name Speed", "Member Level missing type", "Member 3 missing name",
        "Member 3 missing type", "Member 4 missing name", "Member 4 missing type", "Member 5 missing name",
        "Member 6 missing name", "Member 6 missing type"] ∧
    (checkTree repeatedNames = [] ↔ IsDefinition repeatedNames) ∧
      ∀ items, repeatedNames.HasEntry "members" (.sequence items) →
        (checkTree repeatedNames).countP isDuplicate + {name | ∃ item ∈ items, IsNamed name item}.ncard =
          items.countP fun item => ∃ name, IsNamed name item :=
  ⟨by decide, by decide, by decide, checkTree_form (by decide) (by decide)⟩

end Validation

end PlcTypes
