import PlcTypes.Format.Beckhoff
import PlcTypes.Format.Codesys
import PlcTypes.Format.Siemens
import PlcTypes.Proofs.StructuredText.Dialect

/-!
# Types read in a dialect

A dialect reads a type as it is read canonically, fault by fault and level by level, and differs
from that only in the leaf: there a keyword counts in every letter case. As all dialects have the
keywords of the standard in some letter case, they read every text alike.
-/

namespace PlcTypes

open Text

namespace DataType

/-- The scalar type with a keyword of these letters in any letter case, or else the name. -/
def ofKeyword (name : String) : DataType :=
  match ScalarKind.all.find? fun kind => sameIgnoringCase kind.keyword.toList name.toList with
  | some kind => .scalar kind
  | none => .named name

/-- The type with a scalar type for a name that is a keyword in some letter case. -/
def withKeywords : DataType → DataType
  | scalar kind => scalar kind
  | array base lower upper => array base.withKeywords lower upper
  | named name => ofKeyword name

/-- Two ways to read leaves that differ by a change of leaves give types that differ by it. -/
theorem decodeWith_eq_map {leaf other : List Char → DataType} {change : DataType → DataType}
    (hleaf : ∀ token, other token = change (leaf token))
    (harray : ∀ base lower upper, change (.array base lower upper) = .array (change base) lower upper)
    (text : List Char) : decodeWith other text = (decodeWith leaf text).map change := by
  induction text using decodeWith.induct with
  | case1 text hhead => rw [decodeWith_of_leaf hhead, decodeWith_of_leaf hhead, hleaf]; rfl
  | case2 text head hhead hshorter ih =>
    rw [decodeWith_of_array hhead, decodeWith_of_array hhead, ih]
    cases readBound head.lower with
    | error fault => rfl
    | ok lower =>
      cases readBound head.upper with
      | error fault => rfl
      | ok upper =>
        cases decodeWith leaf head.base with
        | error fault => rfl
        | ok base =>
          rw [Except.map]
          simp only [bind, Except.bind, arrayOf]
          split
          · rfl
          · rw [Except.map, harray]

end DataType

namespace StructuredText

open DataType

/-- The dialects of structured text. -/
def dialects : List Dialect := [Siemens.dialect, Beckhoff.dialect, Codesys.dialect]

/-- The words of every dialect are those of the standard in some letter case. -/
theorem conforms_of_mem_dialects {dialect : Dialect} (h : dialect ∈ dialects) : dialect.Conforms := by
  simp only [dialects, List.mem_cons, List.not_mem_nil, or_false] at h
  rcases h with rfl | rfl | rfl
  · exact Dialect.conforms_mixedCase .siemens
  · exact Dialect.conforms_standard .beckhoff
  · exact Dialect.conforms_standard .codesys

namespace Dialect

variable {dialect : Dialect}

/-- A leaf is read as canonically, but for the letter case of keywords. -/
theorem Conforms.leaf_eq (h : dialect.Conforms) (token : List Char) :
    dialect.leaf token = (canonicalLeaf token).withKeywords := by
  have hscalar : dialect.scalarOf? token =
      ScalarKind.all.find? fun kind => sameIgnoringCase kind.keyword.toList token := by
    simp only [scalarOf?, h.sameIgnoringCase_keyword]
  rw [leaf, hscalar]
  cases hfind : ScalarKind.all.find? fun kind => kind.keyword.toList == token with
  | some kind =>
    -- a keyword in capitals has the letters of no other keyword
    have hkind : kind.keyword.toList = token := by simpa using List.find?_some hfind
    have hsame : (ScalarKind.all.find? fun other =>
        sameIgnoringCase other.keyword.toList kind.keyword.toList) = some kind := by
      cases kind <;> decide
    rw [canonicalLeaf, hfind, ← hkind, hsame]
    rfl
  | none =>
    cases hother : ScalarKind.all.find? fun kind => sameIgnoringCase kind.keyword.toList token <;>
      simp [canonicalLeaf, hfind, withKeywords, ofKeyword, hother]

/-- A type is read as canonically, but for the letter case of keywords. -/
theorem Conforms.readType_eq (h : dialect.Conforms) (text : List Char) :
    dialect.readType text = (ofChars text).map withKeywords :=
  decodeWith_eq_map h.leaf_eq (fun _ _ _ => rfl) text

end Dialect

/-- Every dialect fails to read a type exactly when the canonical reading fails, with the same error,
and otherwise reads the canonical type with the names that are keywords in some letter case as
scalar types. So all dialects read every text alike. -/
theorem readType_canonical {dialect : Dialect} (h : dialect ∈ dialects) (text : String) :
    (∀ error, dialect.readType text.toList = .error error ↔ ofSpelling text = .error error) ∧
      (∀ type, ofSpelling text = .ok type → dialect.readType text.toList = .ok type.withKeywords) ∧
      ∀ other ∈ dialects, other.readType text.toList = dialect.readType text.toList := by
  have hread := (conforms_of_mem_dialects h).readType_eq text.toList
  refine ⟨fun error => ?_, fun type htype => ?_, fun other hother => ?_⟩
  · rw [hread, ofSpelling]
    cases ofChars text.toList <;> simp [Except.map]
  · rw [hread, show ofChars text.toList = .ok type from htype]
    rfl
  · rw [hread, (conforms_of_mem_dialects hother).readType_eq]

/-- The element of an array of arrays is a keyword in a dialect where it is a name canonically. -/
theorem readType_canonical_nested : Siemens.dialect ∈ dialects ∧
    ofSpelling "ARRAY [1..2] of array[ 0..9 ]Of dint" =
      .ok (.array (.array (.named "dint") 0 9) 1 2) ∧
    Siemens.dialect.readType "ARRAY [1..2] of array[ 0..9 ]Of dint".toList =
      .ok (.array (.array (.scalar .dint) 0 9) 1 2) := by
  have hmem : Siemens.dialect ∈ dialects := List.mem_cons_self
  have htype : ofSpelling "ARRAY [1..2] of array[ 0..9 ]Of dint" =
      .ok (.array (.array (.named "dint") 0 9) 1 2) := by
    have houter : arrayHead? (trim "ARRAY [1..2] of array[ 0..9 ]Of dint".toList) =
        some ⟨"1".toList, "2".toList, "array[ 0..9 ]Of dint".toList⟩ := by decide
    have hinner : arrayHead? (trim "array[ 0..9 ]Of dint".toList) =
        some ⟨"0".toList, "9".toList, "dint".toList⟩ := by decide
    have hleaf : arrayHead? (trim "dint".toList) = none := by decide
    rw [ofSpelling, ofChars, decodeWith_of_array houter, decodeWith_of_array hinner,
      decodeWith_of_leaf hleaf]
    rfl
  exact ⟨hmem, htype, (readType_canonical hmem _).2.1 _ htype⟩

end StructuredText

end PlcTypes
