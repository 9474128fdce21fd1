import Mathlib.Data.List.Find
import PlcTypes.Proofs.Success
import PlcTypes.Universal

/-!
# Sound document trees

Whatever a sound tree is made of is sound, and in a sound mapping whose keys are scalars without
tags a field is found by the text of its key as it is found by the key itself. The two readers of
YAML see the same tree where it is sound.
-/

namespace PlcTypes.Yaml

/-- A YAML text that reads as a sound tree reads as that tree. -/
theorem Codec.readsAlike_standard : standard.ReadsAlike := by
  intro text tree h
  change Tree.readSound? text = some tree at h
  change Tree.read? text = some tree ∧ _
  rw [Tree.readSound?] at h
  split at h
  · rename_i node hnode
    split at h
    · rename_i hbounds
      simp only [Bool.and_eq_true] at hbounds
      rw [Tree.read?, hnode, Option.map_some]
      obtain rfl := Option.some.inj h
      exact ⟨rfl, hbounds.2⟩
    · simp at h
  · simp at h

namespace Tree

/-- Tags do not matter to soundness. -/
theorem isSound_untagged (tree : Tree) : tree.untagged.isSound = tree.isSound := by
  fun_induction untagged tree with
  | case1 tag content ih => rw [ih, isSound]
  | case2 => rfl

/-- A list of trees is sound if all of them are. -/
theorem itemsAreSound_iff {items : List Tree} :
    itemsAreSound items = true ↔ ∀ item ∈ items, item.isSound = true := by
  induction items with
  | nil => simp [itemsAreSound]
  | cons item others ih => simp [itemsAreSound, ih]

/-- A list of entries is sound if all keys and values are. -/
theorem entriesAreSound_iff {entries : List (Tree × Tree)} : entriesAreSound entries = true ↔
    ∀ entry ∈ entries, entry.1.isSound = true ∧ entry.2.isSound = true := by
  induction entries with
  | nil => simp [entriesAreSound]
  | cons entry others ih => simp [entriesAreSound, ih]

variable {tree value : Tree} {key : String} {items : List Tree} {entries : List (Tree × Tree)}

/-- A field is looked up in a mapping. -/
theorem exists_of_field? (h : tree.field? key = some value) :
    ∃ entries, tree.untagged = mapping entries ∧ ∃ entry ∈ entries, entry.2 = value := by
  rw [field?] at h
  split at h
  · rename_i entries huntagged
    obtain ⟨entry, hfound, hvalue⟩ := Option.map_eq_some_iff.mp h
    exact ⟨entries, huntagged, entry, List.mem_of_find?_eq_some hfound, hvalue⟩
  · simp at h

/-- A sound mapping repeats no key, and its keys and values are sound. -/
theorem isSound_mapping (h : tree.isSound = true) (hmapping : tree.untagged = mapping entries) :
    keysDiffer entries = true ∧
      ∀ entry ∈ entries, entry.1.isSound = true ∧ entry.2.isSound = true := by
  rw [← isSound_untagged, hmapping, isSound, Bool.and_eq_true, entriesAreSound_iff] at h
  exact h

/-- A field of a sound tree is sound. -/
theorem isSound_of_field? (h : tree.isSound = true) (hfield : tree.field? key = some value) :
    value.isSound = true := by
  obtain ⟨entries, hmapping, entry, hmem, rfl⟩ := exists_of_field? hfield
  exact ((isSound_mapping h hmapping).2 entry hmem).2

/-- A tree has items if it is a sequence, tagged or not. -/
theorem items?_eq_some_iff : tree.items? = some items ↔ tree.untagged = sequence items := by
  rw [items?]
  split
  · rename_i found huntagged
    rw [huntagged, Option.some.injEq, sequence.injEq]
  · rename_i hother
    simp only [reduceCtorEq, false_iff]
    exact hother items

/-- The items of a sound tree are sound. -/
theorem isSound_of_items? (h : tree.isSound = true) (hitems : tree.items? = some items) :
    ∀ item ∈ items, item.isSound = true := by
  rw [← isSound_untagged, items?_eq_some_iff.mp hitems, isSound] at h
  exact itemsAreSound_iff.mp h

/-- The text of a scalar. -/
def label : Tree → String
  | scalar text _ => text
  | _ => ""

/-- A scalar without a tag: it has quotes and is a text, or it stands for what its text stands for. -/
def IsUntaggedScalar : Tree → Prop
  | scalar text value => value = .string ∨ value = .ofPlain text.toList
  | _ => False

instance : (tree : Tree) → Decidable tree.IsUntaggedScalar
  | scalar text value => inferInstanceAs (Decidable (value = .string ∨ value = .ofPlain text.toList))
  | sequence _ | mapping _ | tagged .. => inferInstanceAs (Decidable False)

/-- A scalar without a tag has a text, and what it stands for is known from the text and the quotes. -/
theorem IsUntaggedScalar.exists_scalar (h : tree.IsUntaggedScalar) :
    ∃ text value, tree = scalar text value ∧ (value = .string ∨ value = .ofPlain text.toList) := by
  cases tree with
  | scalar text value => exact ⟨text, value, rfl, h⟩
  | sequence items => exact h.elim
  | mapping entries => exact h.elim
  | tagged tag content => exact h.elim

/-- A key that is no number, truth value or null is the same text with quotes and without. -/
theorem eq_of_label (hkey : Scalar.ofPlain key.toList = .string) (h : tree.IsUntaggedScalar)
    (hlabel : tree.label = key) : tree = scalar key .string := by
  obtain ⟨text, value, rfl, hvalue⟩ := h.exists_scalar
  obtain rfl : text = key := hlabel
  rcases hvalue with rfl | rfl
  · rfl
  · rw [hkey]

/-- The keys of a mapping are scalars without tags. -/
def HasScalarKeys (tree : Tree) : Prop :=
  ∀ entries, tree.untagged = mapping entries → ∀ entry ∈ entries, entry.1.IsUntaggedScalar

/-- The keys of a mapping without a tag are those of its entries. -/
theorem hasScalarKeys_mapping_iff : (mapping entries).HasScalarKeys ↔
    ∀ entry ∈ entries, entry.1.IsUntaggedScalar := by
  constructor
  · exact fun h => h entries rfl
  · rintro h _ ⟨⟩
    exact h

/-- A field is found by the text of its key. -/
theorem field?_eq_find? (hkey : Scalar.ofPlain key.toList = .string)
    (hmapping : tree.untagged = mapping entries)
    (hscalars : ∀ entry ∈ entries, entry.1.IsUntaggedScalar) :
    tree.field? key = (entries.find? fun entry => entry.1.label == key).map Prod.snd := by
  rw [field?, hmapping]
  refine congrArg (Option.map Prod.snd) (List.find?_congr fun entry hmem => ?_)
  obtain ⟨name, value⟩ := entry
  have hscalar : name.IsUntaggedScalar := hscalars _ hmem
  by_cases hlabel : name.label = key
  · obtain rfl := eq_of_label hkey hscalar hlabel
    rfl
  · have hother : (name.label == key) = false := beq_eq_false_iff_ne.mpr hlabel
    dsimp only
    rw [hother]
    split
    · exact hother
    · rfl

/-- Of several entries with differing keys at most one has a given text for its key. -/
theorem filter_label (hkey : Scalar.ofPlain key.toList = .string)
    (hscalars : ∀ entry ∈ entries, entry.1.IsUntaggedScalar) (hdiffer : keysDiffer entries = true) :
    entries.filter (fun entry => entry.1.label == key) =
      (entries.find? fun entry => entry.1.label == key).toList := by
  induction entries with
  | nil => rfl
  | cons entry others ih =>
    obtain ⟨name, value⟩ := entry
    rw [keysDiffer, Bool.and_eq_true, List.all_eq_true] at hdiffer
    have hothers : ∀ entry ∈ others, entry.1.IsUntaggedScalar := fun entry hmem =>
      hscalars entry (List.mem_cons_of_mem _ hmem)
    by_cases hlabel : name.label = key
    · have hname : name = scalar key .string :=
        eq_of_label hkey (hscalars _ List.mem_cons_self) hlabel
      have hnone : others.filter (fun entry => entry.1.label == key) = [] := by
        rw [List.filter_eq_nil_iff]
        intro entry hmem hentry
        have hsame := hdiffer.1 entry hmem
        rw [eq_of_label hkey (hothers entry hmem) (beq_iff_eq.mp hentry), hname] at hsame
        simp [same, sameScalar] at hsame
      rw [List.filter_cons_of_pos (by simpa using hlabel), hnone,
        List.find?_cons_of_pos (by simpa using hlabel)]
      rfl
    · rw [List.filter_cons_of_neg (by simpa using hlabel),
        List.find?_cons_of_neg (by simpa using hlabel)]
      exact ih hothers hdiffer.2

/-- The text of a field, empty if there is none. -/
def fieldText (key : String) (tree : Tree) : String := ((tree.field? key).bind string?).getD ""

/-- A field with a text is a scalar for it. -/
theorem exists_of_fieldText (h : tree.fieldText key ≠ "") :
    ∃ value, tree.field? key = some value ∧ value.string? = some (tree.fieldText key) := by
  cases hfield : tree.field? key with
  | none => simp [fieldText, hfield] at h
  | some value =>
    cases htext : value.string? with
    | none => simp [fieldText, hfield, htext] at h
    | some text => exact ⟨value, rfl, by simp [fieldText, hfield, htext]⟩

end Tree

end PlcTypes.Yaml
