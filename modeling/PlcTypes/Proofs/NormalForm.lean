import PlcTypes.Proofs.CanonicalType

/-!
# The canonical spelling is a normal form

A type reads back from its canonical spelling if and only if its arrays are in order and the name
under them is one that reading leaves alone: trimmed, no keyword in capitals and no array spelling,
and under an array also more than nothing and on one line. All types that were read are of this
kind, so reading and spelling again is the same as reading.
-/

namespace PlcTypes

open Text Number

/-- A name that reading leaves alone. -/
structure IsPlainName (name : String) : Prop where
  trimmed : IsTrimmed name.toList
  notKeyword : ∀ kind : ScalarKind, name ≠ kind.keyword
  notArray : arrayHead? name.toList = none

namespace DataType

/-- A token is a name canonically if it is no keyword in capitals. -/
theorem canonicalLeaf_eq_named_iff {token : List Char} {name : String} :
    canonicalLeaf token = .named name ↔
      name = String.ofList token ∧ ∀ kind : ScalarKind, name ≠ kind.keyword := by
  have hkeyword (kind : ScalarKind) : kind.keyword.toList = token ↔ String.ofList token = kind.keyword := by
    rw [← String.toList_inj, String.toList_ofList, eq_comm]
  cases hfind : ScalarKind.all.find? fun kind => kind.keyword.toList == token with
  | some kind =>
    have hkind := (hkeyword kind).mp (by simpa using List.find?_some hfind)
    rw [canonicalLeaf, hfind]
    simp only [reduceCtorEq, false_iff, not_and, not_forall, not_not]
    rintro rfl
    exact ⟨kind, hkind⟩
  | none =>
    rw [canonicalLeaf, hfind]
    simp only [named.injEq]
    constructor
    · rintro rfl
      refine ⟨rfl, fun kind hkind => ?_⟩
      have hnot := List.find?_eq_none.mp hfind kind (by cases kind <;> decide)
      exact hnot (beq_iff_eq.mpr ((hkeyword kind).mpr hkind))
    · exact fun h => h.1.symm

/-- A plain name is read as a name. -/
theorem isLeafName_iff {name : String} : IsLeafName canonicalLeaf name ↔ IsPlainName name := by
  constructor
  · intro h
    exact ⟨h.trimmed, (canonicalLeaf_eq_named_iff.mp h.leaf).2, h.notArray⟩
  · intro h
    exact ⟨h.trimmed, h.notArray,
      canonicalLeaf_eq_named_iff.mpr ⟨String.ofList_toList.symm, h.notKeyword⟩⟩

/-- A name reads back from itself if and only if it is plain. -/
theorem ofSpelling_named_iff (name : String) :
    ofSpelling (named name).spelling = .ok (.named name) ↔ IsPlainName name := by
  change decodeWith canonicalLeaf name.toList = _ ↔ _
  cases hhead : arrayHead? (trim name.toList) with
  | some head =>
    constructor
    · intro h
      rw [decodeWith_of_array hhead] at h
      obtain ⟨lower, -, h⟩ := bind_eq_ok_iff.mp h
      obtain ⟨upper, -, h⟩ := bind_eq_ok_iff.mp h
      obtain ⟨base, -, h⟩ := bind_eq_ok_iff.mp h
      nomatch (arrayOf_eq_ok_iff.mp h).2
    · intro h
      rw [show trim name.toList = name.toList from h.trimmed, h.notArray] at hhead
      nomatch hhead
  | none =>
    rw [decodeWith_of_leaf hhead, Except.ok.injEq, canonicalLeaf_eq_named_iff]
    constructor
    · rintro ⟨hname, hkeyword⟩
      have htrim : trim name.toList = name.toList := by
        rw [← String.toList_ofList (l := trim name.toList), ← hname]
      exact ⟨htrim, hkeyword, htrim ▸ hhead⟩
    · intro h
      rw [show trim name.toList = name.toList from h.trimmed, String.ofList_toList]
      exact ⟨rfl, h.notKeyword⟩

/-- An array reads back from its spelling if and only if its base does and is spelled with more than
white space on one line, and the bounds are in order. -/
theorem ofSpelling_array_iff (base : DataType) (lower upper : Int64) :
    ofSpelling (array base lower upper).spelling = .ok (.array base lower upper) ↔
      lower ≤ upper ∧ (trim base.spelling.toList ≠ [] ∧ '\n' ∉ trim base.spelling.toList) ∧
        ofSpelling base.spelling = .ok base := by
  change decodeWith canonicalLeaf _ = _ ↔ _
  rw [toList_spelling_array]
  by_cases hbase : trim base.spelling.toList ≠ [] ∧ '\n' ∉ trim base.spelling.toList
  · rw [decodeWith_arrayText (by decide) (by decide) hbase.1 hbase.2, bind_eq_ok_iff]
    constructor
    · rintro ⟨type, htype, harray⟩
      obtain ⟨hle, heq⟩ := arrayOf_eq_ok_iff.mp harray
      obtain rfl : base = type := (array.inj heq).1
      exact ⟨hle, hbase, htype⟩
    · rintro ⟨hle, -, htype⟩
      exact ⟨base, htype, arrayOf_of_le hle⟩
  · have hhead : arrayHead? (trim (arrayText "ARRAY" "OF" lower upper base.spelling.toList)) =
        none := by
      rw [arrayHead?_trim_arrayText _ _ _ (by decide) (by decide), if_neg hbase]
    rw [decodeWith_of_leaf hhead]
    simp only [hbase, false_and, and_false, iff_false, Except.ok.injEq]
    intro harray
    rcases refinesCanonical_canonicalLeaf (trim (arrayText "ARRAY" "OF" lower upper
      base.spelling.toList)) with ⟨kind, hkind⟩ | ⟨hname, -⟩
    · rw [hkind] at harray
      nomatch harray
    · rw [hname] at harray
      nomatch harray

/-- A name is on one line and more than nothing. -/
def IsLineName (name : String) : Prop := name ≠ "" ∧ '\n' ∉ name.toList

/-- A plain name on one line can stand under arrays. -/
theorem isBaseName_of_isPlainName {name : String} (hplain : IsPlainName name) (hline : IsLineName name) :
    IsBaseName canonicalLeaf name where
  toIsLeafName := isLeafName_iff.mpr hplain
  nonempty hnil := hline.1 (String.toList_eq_nil_iff.mp hnil)
  oneLine := hline.2

/-- A spelling can stand under an array if and only if the name under its own arrays can. -/
theorem spelling_oneLine_iff {type : DataType} (hplain : type.NameSatisfies IsPlainName)
    (harray : type.isArray = true → type.NameSatisfies IsLineName) :
    (trim type.spelling.toList ≠ [] ∧ '\n' ∉ trim type.spelling.toList) ↔
      type.NameSatisfies IsLineName := by
  have hspelling (hline : type.NameSatisfies IsLineName) :
      trim type.spelling.toList ≠ [] ∧ '\n' ∉ trim type.spelling.toList := by
    obtain ⟨htrim, hne, hfeed⟩ := spellWith_oneLine isNotation_canonical
      ((hplain.and hline).imp fun name h => isBaseName_of_isPlainName h.1 h.2)
    rw [show trim type.spelling.toList = type.spelling.toList from htrim]
    exact ⟨hne, hfeed⟩
  refine ⟨fun h => ?_, hspelling⟩
  cases type with
  | scalar kind => trivial
  | array base lower upper => exact harray rfl
  | named name =>
    have hname : (named name).spelling = name := rfl
    have htrim : trim name.toList = name.toList := IsPlainName.trimmed hplain
    rw [hname, htrim] at h
    have hne : name ≠ "" := fun hempty => h.1 (String.toList_eq_nil_iff.mpr hempty)
    exact And.intro hne h.2

/-- A type reads back from its canonical spelling if and only if the bounds are in order at every array
level and the name under the arrays is trimmed, no keyword in capitals and no array spelling, and
under an array also more than nothing and without a line feed. A type that was read from any text
reads back. -/
theorem ofSpelling_spelling_iff :
    (∀ type : DataType, ofSpelling type.spelling = .ok type ↔
      type.IsOrdered ∧ type.NameSatisfies IsPlainName ∧
        (type.isArray = true → type.NameSatisfies IsLineName)) ∧
    ∀ (text : String) (type : DataType), ofSpelling text = .ok type →
      ofSpelling type.spelling = .ok type := by
  refine ⟨fun type => ?_, fun text type =>
    ofSpelling_spelling_of_decodeWith refinesCanonical_canonicalLeaf⟩
  induction type with
  | scalar kind =>
    simp only [isArray, IsOrdered, NameSatisfies, Bool.false_eq_true, false_implies, and_self, iff_true]
    exact ofSpelling_spelling trivial trivial
  | named name =>
    simp only [ofSpelling_named_iff, isArray, IsOrdered, NameSatisfies, Bool.false_eq_true,
      false_implies, and_true, true_and]
  | array base lower upper ih =>
    rw [ofSpelling_array_iff, ih]
    constructor
    · rintro ⟨hle, hbase, hordered, hplain, harray⟩
      exact ⟨⟨hle, hordered⟩, hplain, fun _ => (spelling_oneLine_iff hplain harray).mp hbase⟩
    · rintro ⟨⟨hle, hordered⟩, hplain, harray⟩
      have hbasePlain : base.NameSatisfies IsPlainName := hplain
      have hline : base.NameSatisfies IsLineName := harray rfl
      exact ⟨hle, (spelling_oneLine_iff hbasePlain fun _ => hline).mpr hline, hordered, hplain,
        fun _ => hline⟩

end DataType

end PlcTypes
