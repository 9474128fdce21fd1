import PlcTypes.Definition
import PlcTypes.Proofs.Literal

/-!
# Built members and built definitions

A built member has an initial value that its type has been fitted to, so building it again
changes nothing. Members of distinct names are pushed one behind the other, and whatever is
pushed, the names of a definition stay distinct.
-/

namespace PlcTypes

open Text

namespace Member

/-- A member that has been built from some initial value. -/
def IsBuilt (member : Member) : Prop :=
  ∃ initial, member = .of member.name member.type initial member.description

/-- A built member is one whose initial value is fitted to its type and blank for none but the
type of texts. -/
theorem isBuilt_iff (member : Member) :
    member.IsBuilt ↔ ∀ value ∈ member.initial, Literal.coerce member.type value = value ∧
      (member.type.isString || !value.isBlankText) = true := by
  constructor
  · rintro ⟨initial, h⟩ value hvalue
    rw [h, of] at hvalue
    obtain ⟨hmap, hkeep⟩ := Option.mem_filter_iff.mp hvalue
    obtain ⟨original, -, rfl⟩ := Option.mem_map.mp hmap
    exact ⟨Literal.coerce_coerce _ _, hkeep⟩
  · intro h
    refine ⟨member.initial, ?_⟩
    obtain ⟨name, type, initial, description⟩ := member
    cases initial with
    | none => rfl
    | some value =>
      obtain ⟨hfixed, hkeep⟩ := h value rfl
      simp only [of, Option.map_some, hfixed, Option.filter_some]
      rw [if_pos hkeep]

/-- Building a built member under another description changes the description only. -/
theorem IsBuilt.of_initial {member : Member} (h : member.IsBuilt) (description : String) :
    of member.name member.type member.initial description = { member with description } := by
  obtain ⟨name, type, initial, old⟩ := member
  cases initial with
  | none => rfl
  | some value =>
    obtain ⟨hfixed, hkeep⟩ := (isBuilt_iff _).mp h value rfl
    simp only [of, Option.map_some, hfixed, Option.filter_some]
    rw [if_pos hkeep]

/-- The initial value of a built member is fitted to its type. -/
theorem IsBuilt.isFitted {member : Member} (h : member.IsBuilt) :
    ∀ value ∈ member.initial, value.IsFitted member.type := by
  intro value hvalue
  obtain ⟨hfixed, hkeep⟩ := (isBuilt_iff member).mp h value hvalue
  exact Literal.isFitted_of_coerce hfixed hkeep

/-- The word occurs in no text of the member. -/
structure Avoids (word : List Char) (member : Member) : Prop where
  name : ¬word <:+: member.name.toList
  type : ¬word <:+: member.type.spelling.toList
  initial : ∀ value ∈ member.initial, ¬word <:+: value.spelling.toList
  description : ¬word <:+: member.description.toList

/-- What identifies a member to its readers: its name and its type. -/
def outline (member : Member) : String × DataType := (member.name, member.type)

/-- A member is built by building it. -/
theorem isBuilt_of (name : String) (type : DataType) (initial : Option Literal)
    (description : String) : (of name type initial description).IsBuilt :=
  ⟨initial, rfl⟩

end Member

/-- A member of a new name is put at the end. -/
theorem putMember_of_notMem {member : Member} {members : List Member}
    (h : member.name ∉ members.map Member.name) : putMember member members = members ++ [member] := by
  induction members with
  | nil => rfl
  | cons first others ih =>
    rw [List.map_cons, List.mem_cons, not_or] at h
    rw [putMember, if_neg (Ne.symm h.1), ih h.2, List.cons_append]

/-- A member that is put in takes the place of its name or adds its name. -/
theorem names_putMember (member : Member) (members : List Member) :
    (putMember member members).map Member.name =
      if member.name ∈ members.map Member.name then members.map Member.name
      else members.map Member.name ++ [member.name] := by
  induction members with
  | nil => rfl
  | cons first others ih =>
    rw [putMember]
    split
    · rename_i heq
      rw [if_pos (by simp [heq])]
      simp [heq]
    · rename_i hne
      rw [List.map_cons, ih]
      split
      · rename_i hmem
        rw [List.map_cons, if_pos (List.mem_cons_of_mem _ hmem)]
      · rename_i hmem
        have hnew : member.name ∉ first.name :: others.map Member.name := by
          rw [List.mem_cons, not_or]
          exact ⟨Ne.symm hne, hmem⟩
        rw [List.map_cons, if_neg hnew, List.cons_append]

/-- Where a member is put depends on names alone. -/
theorem outline_putMember {member other : Member} {members others : List Member}
    (h : member.outline = other.outline)
    (hall : members.map Member.outline = others.map Member.outline) :
    (putMember member members).map Member.outline = (putMember other others).map Member.outline := by
  induction members generalizing others with
  | nil =>
    rw [List.map_eq_nil_iff.mp hall.symm]
    exact congrArg ([·]) h
  | cons first members ih =>
    obtain ⟨first', others, rfl, hfirst, hrest⟩ := List.map_eq_cons_iff.mp hall.symm
    have hname : first'.name = first.name := congrArg Prod.fst hfirst
    have hname' : member.name = other.name := congrArg Prod.fst h
    rw [putMember, putMember, hname, hname']
    split_ifs
    · rw [List.map_cons, List.map_cons, h, hrest]
    · rw [List.map_cons, List.map_cons, hfirst, ih hrest.symm]

/-- Putting a member in brings in no other. -/
theorem mem_of_mem_putMember {member other : Member} {members : List Member}
    (h : other ∈ putMember member members) : other = member ∨ other ∈ members := by
  induction members with
  | nil => exact Or.inl (List.mem_singleton.mp h)
  | cons first others ih =>
    rw [putMember] at h
    split at h
    · rcases List.mem_cons.mp h with rfl | h
      · exact Or.inl rfl
      · exact Or.inr (List.mem_cons_of_mem _ h)
    · rcases List.mem_cons.mp h with rfl | h
      · exact Or.inr List.mem_cons_self
      · exact (ih h).imp id (List.mem_cons_of_mem _)

namespace Definition

/-- No two members have the same name. -/
def HasDistinctNames (d : Definition) : Prop := (d.members.map Member.name).Nodup

instance (d : Definition) : Decidable d.HasDistinctNames :=
  inferInstanceAs (Decidable (d.members.map Member.name).Nodup)

/-- A definition without its descriptions and initial values. -/
def outline (d : Definition) : String × List (String × DataType) :=
  (d.name, d.members.map Member.outline)

/-- Members that differ in descriptions and initial values only are pushed to the same places. -/
theorem outline_pushAll {d e : Definition} {members others : List Member} (h : d.outline = e.outline)
    (hall : members.map Member.outline = others.map Member.outline) :
    (d.pushAll members).outline = (e.pushAll others).outline := by
  induction members generalizing d e others with
  | nil =>
    rw [List.map_eq_nil_iff.mp hall.symm]
    exact h
  | cons member members ih =>
    obtain ⟨other, others, rfl, hmember, hrest⟩ := List.map_eq_cons_iff.mp hall.symm
    obtain ⟨hname, hmembers⟩ := Prod.mk.inj h
    have hpush : (d.push member).outline = (e.push other).outline :=
      Prod.ext hname (outline_putMember hmember.symm hmembers)
    change ((d.push member).pushAll members).outline = ((e.push other).pushAll others).outline
    exact ih hpush hrest.symm

/-- The outline of what members are pushed into an empty definition does not depend on descriptions. -/
theorem outline_bare_pushAll (name description other : String) {members others : List Member}
    (hall : members.map Member.outline = others.map Member.outline) :
    ((bare name description).pushAll members).outline = ((bare name other).pushAll others).outline :=
  have hbare : (bare name description).outline = (bare name other).outline := rfl
  outline_pushAll hbare hall

/-- Members of new and distinct names are pushed one behind the other. -/
theorem pushAll_eq_append {d : Definition} {members : List Member}
    (h : (d.members.map Member.name ++ members.map Member.name).Nodup) :
    d.pushAll members = { d with members := d.members ++ members } := by
  induction members generalizing d with
  | nil => simp [pushAll]
  | cons member others ih =>
    have hnew : member.name ∉ d.members.map Member.name := by
      intro hmem
      exact (List.nodup_append.mp h).2.2 _ hmem _ List.mem_cons_self rfl
    have hpush : d.push member = { d with members := d.members ++ [member] } := by
      rw [push, putMember_of_notMem hnew]
    change (d.push member).pushAll others = _
    rw [hpush, ih (by simpa using h)]
    simp

/-- A definition of distinct names is made of its members. -/
theorem bare_pushAll {name description : String} {members : List Member}
    (h : (members.map Member.name).Nodup) :
    (bare name description).pushAll members = ⟨name, description, members⟩ := by
  rw [pushAll_eq_append (by simpa [bare] using h)]
  rfl

/-- Members that keep their names are pushed as they are. -/
theorem HasDistinctNames.bare_pushAll_map {d : Definition} (h : d.HasDistinctNames)
    (change : Member → Member) (hchange : ∀ member, (change member).name = member.name)
    (name description : String) : (bare name description).pushAll (d.members.map change) =
      ⟨name, description, d.members.map change⟩ := by
  have hnames : (d.members.map change).map Member.name = d.members.map Member.name := by
    rw [List.map_map]
    exact List.map_congr_left fun member _ => hchange member
  apply bare_pushAll
  rw [hnames]
  exact h

/-- Pushing a member leaves the names distinct. -/
theorem HasDistinctNames.push {d : Definition} (h : d.HasDistinctNames) (member : Member) :
    (d.push member).HasDistinctNames := by
  rw [HasDistinctNames, Definition.push, names_putMember]
  split
  · exact h
  · rename_i hnew
    refine List.nodup_append.mpr ⟨h, by simp, ?_⟩
    rintro name hmem other hother rfl
    exact hnew (List.mem_singleton.mp hother ▸ hmem)

/-- Whatever is pushed, the names stay distinct, and every member was there or was pushed. -/
theorem pushAll_spec {d : Definition} (h : d.HasDistinctNames) (members : List Member) :
    (d.pushAll members).name = d.name ∧ (d.pushAll members).description = d.description ∧
      (d.pushAll members).HasDistinctNames ∧
      ∀ member ∈ (d.pushAll members).members, member ∈ d.members ∨ member ∈ members := by
  induction members generalizing d with
  | nil => exact ⟨rfl, rfl, h, fun _ => Or.inl⟩
  | cons first others ih =>
    obtain ⟨hname, hdescription, hnames, hmembers⟩ := ih (h.push first)
    refine ⟨hname, hdescription, hnames, fun member hmem => ?_⟩
    rcases hmembers member hmem with hmem | hmem
    · rcases mem_of_mem_putMember hmem with rfl | hmem
      · exact Or.inr List.mem_cons_self
      · exact Or.inl hmem
    · exact Or.inr (List.mem_cons_of_mem _ hmem)

/-- Whatever is pushed, the names are distinct, and what holds of all pushed members holds of all
members. -/
theorem forall_mem_bare_pushAll {p : Member → Prop} {members : List Member}
    (h : ∀ member ∈ members, p member) (name description : String) :
    ((bare name description).pushAll members).HasDistinctNames ∧
      ∀ member ∈ ((bare name description).pushAll members).members, p member := by
  have hbare : (bare name description).HasDistinctNames := List.nodup_nil
  obtain ⟨-, -, hnames, hmembers⟩ := pushAll_spec hbare members
  refine ⟨hnames, fun member hmem => ?_⟩
  rcases hmembers member hmem with hmem | hmem
  · exact absurd hmem List.not_mem_nil
  · exact h member hmem

end Definition

end PlcTypes
