import PlcTypes.Proofs.Success
import PlcTypes.Proofs.TypeSpelling

/-!
# Types that were read

Whatever the notation, a type that was read has the bounds of its arrays in order, and a name
under its arrays was left over as a piece of the text that is neither an array spelling nor a
keyword. So the type reads back from its canonical spelling, whatever the text was.
-/

namespace PlcTypes

open Text Number

namespace DataType

/-- Every leaf is read as a scalar type or as a name that is a name in the other notation too. -/
def Refines (other leaf : List Char → DataType) : Prop :=
  ∀ token, (∃ kind, leaf token = .scalar kind) ∨
    (leaf token = .named (String.ofList token) ∧ other token = .named (String.ofList token))

/-- Every leaf is read as a scalar type or as a name that is a name canonically too. -/
def RefinesCanonical (leaf : List Char → DataType) : Prop := Refines canonicalLeaf leaf

/-- The canonical reading of leaves refines itself. -/
theorem refinesCanonical_canonicalLeaf : RefinesCanonical canonicalLeaf := by
  intro token
  cases hfind : ScalarKind.all.find? fun kind => kind.keyword.toList == token with
  | none => exact Or.inr ⟨by rw [canonicalLeaf, hfind], by rw [canonicalLeaf, hfind]⟩
  | some kind => exact Or.inl ⟨kind, by rw [canonicalLeaf, hfind]⟩

/-- A token that is a keyword in no letter case is a name canonically. -/
theorem canonicalLeaf_of_notKeyword {token : List Char}
    (h : ∀ kind : ScalarKind, sameIgnoringCase kind.keyword.toList token = false) :
    canonicalLeaf token = .named (String.ofList token) := by
  have hfind : (ScalarKind.all.find? fun kind => kind.keyword.toList == token) = none := by
    rw [List.find?_eq_none]
    intro kind _ heq
    have hkind := h kind
    rw [beq_iff_eq.mp heq, sameIgnoringCase, beq_self_eq_true] at hkind
    exact absurd hkind (by decide)
  rw [canonicalLeaf, hfind]

variable {other leaf : List Char → DataType} {text : List Char} {type : DataType}

/-- A notation whose leaves are scalar types and names refines itself. -/
theorem Refines.self (h : Refines other leaf) : Refines leaf leaf := by
  intro token
  exact (h token).imp id fun hname => ⟨hname.1, hname.1⟩

/-- What holds of the leaves and carries over from a base to the array around it holds of every
type that was read. -/
theorem decodeWith_induction {motive : List Char → DataType → Prop}
    (hleaf : ∀ text, arrayHead? (trim text) = none → motive text (leaf (trim text)))
    (harray : ∀ text head base lower upper, arrayHead? (trim text) = some head → lower ≤ upper →
      motive head.base base → motive text (.array base lower upper))
    (h : decodeWith leaf text = .ok type) : motive text type := by
  induction text using decodeWith.induct generalizing type with
  | case1 text hhead =>
    rw [decodeWith_of_leaf hhead, Except.ok.injEq] at h
    rw [← h]
    exact hleaf text hhead
  | case2 text head hhead hshorter ih =>
    rw [decodeWith_of_array hhead] at h
    obtain ⟨lower, -, h⟩ := bind_eq_ok_iff.mp h
    obtain ⟨upper, -, h⟩ := bind_eq_ok_iff.mp h
    obtain ⟨base, hbase, h⟩ := bind_eq_ok_iff.mp h
    obtain ⟨hle, rfl⟩ := arrayOf_eq_ok_iff.mp h
    exact harray text head base lower upper hhead hle (ih hbase)

/-- A type that was read is ordered. -/
theorem isOrdered_of_decodeWith (hleaf : Refines other leaf) (h : decodeWith leaf text = .ok type) :
    type.IsOrdered := by
  refine decodeWith_induction (motive := fun _ type => type.IsOrdered) ?_ ?_ h
  · intro text _
    rcases hleaf (trim text) with ⟨kind, hkind⟩ | ⟨hname, -⟩
    · rw [hkind]
      trivial
    · rw [hname]
      trivial
  · exact fun _ _ _ _ _ _ hle hbase => ⟨hle, hbase⟩

/-- The characters of a name that was read are characters of the text. -/
theorem mem_text_of_decodeWith (hleaf : Refines other leaf) (h : decodeWith leaf text = .ok type) :
    type.NameSatisfies fun name => ∀ c ∈ name.toList, c ∈ text := by
  refine decodeWith_induction
    (motive := fun text type => type.NameSatisfies fun name => ∀ c ∈ name.toList, c ∈ text) ?_ ?_ h
  · intro text _
    rcases hleaf (trim text) with ⟨kind, hkind⟩ | ⟨hname, -⟩
    · rw [hkind]
      trivial
    · rw [hname]
      intro c hc
      rw [String.toList_ofList] at hc
      exact mem_of_mem_trim hc
  · intro text head base lower upper hhead _ hbase
    refine NameSatisfies.imp (fun name hname c hc => ?_) hbase
    exact mem_of_mem_trim ((arrayHead?_spec hhead).2.1.subset (hname c hc))

/-- A trimmed name that is no array spelling reads back. -/
theorem isLeafName_ofList {token : List Char} (htrim : IsTrimmed token)
    (harray : arrayHead? token = none) (hleaf : other token = .named (String.ofList token)) :
    IsLeafName other (String.ofList token) where
  trimmed := by rwa [String.toList_ofList]
  notArray := by rwa [String.toList_ofList]
  leaf := by rwa [String.toList_ofList]

/-- A type that was read from more than white space on one line, or as an array, is ordered and has
a name that can stand under arrays. -/
theorem isBase_of_decodeWith (hleaf : Refines other leaf)
    (htext : arrayHead? (trim text) = none → trim text ≠ [] ∧ '\n' ∉ trim text)
    (h : decodeWith leaf text = .ok type) :
    type.IsOrdered ∧ type.NameSatisfies (IsBaseName other) := by
  refine ⟨isOrdered_of_decodeWith hleaf h, ?_⟩
  revert htext
  refine decodeWith_induction (motive := fun text type =>
    (arrayHead? (trim text) = none → trim text ≠ [] ∧ '\n' ∉ trim text) →
      type.NameSatisfies (IsBaseName other)) ?_ ?_ h
  · intro text hhead htext
    obtain ⟨hne, hline⟩ := htext hhead
    rcases hleaf (trim text) with ⟨kind, hkind⟩ | ⟨hname, hother⟩
    · rw [hkind]
      trivial
    · rw [hname]
      refine ⟨isLeafName_ofList (isTrimmed_trim text) hhead hother, ?_, ?_⟩
      · rwa [String.toList_ofList]
      · rwa [String.toList_ofList]
  · intro text head base lower upper hhead _ hbase _
    obtain ⟨-, -, hne, hline, -⟩ := arrayHead?_spec hhead
    have htrim : trim head.base = head.base := isTrimmed_base hhead (isTrimmed_trim text)
    exact hbase fun _ => htrim.symm ▸ ⟨hne, hline⟩

/-- An ordered type with a name that can stand under arrays reads back from its spelling. -/
theorem ofSpelling_spelling (hordered : type.IsOrdered)
    (hname : type.NameSatisfies (IsBaseName canonicalLeaf)) : ofSpelling type.spelling = .ok type :=
  decodeWith_spellWith_of_base isNotation_canonical hordered hname

/-- A type that was read from any text reads back from its spelling in a notation in which its name
is a name too. -/
theorem decodeWith_spellWith_of_decodeWith {keyword : ScalarKind → String} {arrayWord ofWord : String}
    (hspelled : IsNotation other keyword arrayWord ofWord) (hleaf : Refines other leaf)
    (h : decodeWith leaf text = .ok type) :
    decodeWith other (type.spellWith keyword arrayWord ofWord).toList = .ok type := by
  cases hhead : arrayHead? (trim text) with
  | some head =>
    obtain ⟨hordered, hname⟩ := isBase_of_decodeWith hleaf (by simp [hhead]) h
    exact decodeWith_spellWith_of_base hspelled hordered hname
  | none =>
    rw [decodeWith_of_leaf hhead, Except.ok.injEq] at h
    rcases hleaf (trim text) with ⟨kind, hkind⟩ | ⟨hname, hother⟩
    · rw [← h, hkind]
      exact decodeWith_spellWith_of_base hspelled trivial trivial
    · have htrim : trim (trim text) = trim text := isTrimmed_trim text
      rw [← h, hname, spellWith, String.toList_ofList, decodeWith_of_leaf (by rwa [htrim]), htrim,
        hother]

/-- A type that was read from any text reads back from its spelling. -/
theorem ofSpelling_spelling_of_decodeWith (hleaf : RefinesCanonical leaf)
    (h : decodeWith leaf text = .ok type) : ofSpelling type.spelling = .ok type :=
  decodeWith_spellWith_of_decodeWith isNotation_canonical hleaf h

end DataType

end PlcTypes
