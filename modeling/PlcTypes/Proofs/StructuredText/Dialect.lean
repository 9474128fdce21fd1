import PlcTypes.Proofs.CanonicalType
import PlcTypes.Proofs.Definition
import PlcTypes.Proofs.StructuredText.Quoted
import PlcTypes.StructuredText.Dialect

/-!
# Types and initial values read back

The words of a dialect are those of the standard in some letter case, and every letter case is
read. So a type reads back if its leaf is no name that stands for something else, and an initial
value fitted to its type reads back if it is quoted or is a token that ends on the line before
the next semicolon.
-/

namespace PlcTypes.StructuredText

open Text Number

/-- A name that can stand for a type in a declaration. -/
structure IsTypeName (name : String) : Prop where
  nonempty : name ≠ ""
  trimmed : IsTrimmed name.toList
  plain : ∀ c ∈ name.toList, c ≠ ';' ∧ c ≠ ':' ∧ c ≠ '\r' ∧ c ≠ '\n'
  notKeyword : ∀ kind : ScalarKind, sameIgnoringCase kind.keyword.toList name.toList = false
  notArray : arrayHead? name.toList = none

/-- A token that can stand in a declaration without quotes. -/
structure IsBareToken (token : List Char) : Prop where
  nonempty : token ≠ []
  trimmed : IsTrimmed token
  unquoted : token.head? ≠ some '\''
  plain : ∀ c ∈ token, c ≠ ';' ∧ c ≠ '\r' ∧ c ≠ '\n'

namespace Dialect

/-- The words of the dialect are those of the standard in some letter case. -/
structure Conforms (dialect : Dialect) : Prop where
  keyword : ∀ kind : ScalarKind,
    sameIgnoringCase kind.keyword.toList (dialect.keyword kind).toList = true
  arrayWord : sameIgnoringCase "ARRAY".toList dialect.arrayWord.toList = true
  ofWord : sameIgnoringCase "OF".toList dialect.ofWord.toList = true
  trueWord : sameIgnoringCase dialect.trueWord.toList "true".toList = true
  falseWord : sameIgnoringCase dialect.falseWord.toList "false".toList = true

/-- The words of the standard conform. -/
theorem conforms_standard (vendor : Vendor) : (standard vendor).Conforms where
  keyword kind := by cases vendor <;> cases kind <;> decide
  arrayWord := by cases vendor <;> decide
  ofWord := by cases vendor <;> decide
  trueWord := by cases vendor <;> decide
  falseWord := by cases vendor <;> decide

/-- The words in mixed case conform. -/
theorem conforms_mixedCase (vendor : Vendor) : (mixedCase vendor).Conforms where
  keyword kind := by cases vendor <;> cases kind <;> decide
  arrayWord := by cases vendor <;> decide
  ofWord := by cases vendor <;> decide
  trueWord := by cases vendor <;> decide
  falseWord := by cases vendor <;> decide

variable {dialect : Dialect}

/-- A keyword in any letter case has the letters of the keyword in capitals. -/
theorem Conforms.sameIgnoringCase_keyword (h : dialect.Conforms) (kind : ScalarKind)
    (token : List Char) : sameIgnoringCase (dialect.keyword kind).toList token =
      sameIgnoringCase kind.keyword.toList token := by
  have hlower : kind.keyword.toList.map Char.toLower = (dialect.keyword kind).toList.map Char.toLower :=
    beq_iff_eq.mp (h.keyword kind)
  rw [sameIgnoringCase, sameIgnoringCase, hlower]

/-- The keyword of a scalar type is read as the type. -/
theorem Conforms.leaf_keyword (h : dialect.Conforms) (kind : ScalarKind) :
    dialect.leaf (dialect.keyword kind).toList = .scalar kind := by
  have hlower : (dialect.keyword kind).toList.map Char.toLower = kind.keyword.toList.map Char.toLower :=
    (beq_iff_eq.mp (h.keyword kind)).symm
  have hfind : dialect.scalarOf? (dialect.keyword kind).toList = some kind := by
    simp only [scalarOf?, h.sameIgnoringCase_keyword]
    simp only [sameIgnoringCase, hlower]
    cases kind <;> decide
  rw [leaf, hfind]

/-- A name that is no keyword is read as a name. -/
theorem Conforms.leaf_name (h : dialect.Conforms) {name : String}
    (hname : ∀ kind : ScalarKind, sameIgnoringCase kind.keyword.toList name.toList = false) :
    dialect.leaf name.toList = .named name := by
  have hfind : dialect.scalarOf? name.toList = none := by
    simp only [scalarOf?, h.sameIgnoringCase_keyword, hname, List.find?_eq_none, Bool.false_eq_true,
      not_false_eq_true, implies_true]
  rw [leaf, hfind, String.ofList_toList]

/-- The words of the dialect are a notation. -/
theorem Conforms.isNotation (h : dialect.Conforms) :
    IsNotation dialect.leaf dialect.keyword dialect.arrayWord dialect.ofWord where
  arrayWord := h.arrayWord
  ofWord := h.ofWord
  nonempty kind hnil := by
    have := length_of_sameIgnoringCase (h.keyword kind)
    cases kind <;> simp [hnil, ScalarKind.keyword] at this
  letters kind := isAlpha_of_sameIgnoringCase (h.keyword kind) (by cases kind <;> decide)
  leaf := h.leaf_keyword

/-- Leaves are read as canonically, but for the letter case of keywords. -/
theorem Conforms.refinesCanonical (h : dialect.Conforms) : DataType.RefinesCanonical dialect.leaf := by
  intro token
  cases hfind : dialect.scalarOf? token with
  | some kind => exact Or.inl ⟨kind, by rw [leaf, hfind]⟩
  | none =>
    refine Or.inr ⟨by rw [leaf, hfind], DataType.canonicalLeaf_of_notKeyword fun kind => ?_⟩
    rw [← h.sameIgnoringCase_keyword]
    exact Bool.eq_false_iff.mpr (List.find?_eq_none.mp hfind kind (by cases kind <;> decide))

/-- A name that can stand for a type is read back under arrays as well. -/
theorem Conforms.isBaseName (h : dialect.Conforms) {name : String} (hname : IsTypeName name) :
    IsBaseName dialect.leaf name where
  trimmed := hname.trimmed
  notArray := hname.notArray
  leaf := h.leaf_name hname.notKeyword
  nonempty hnil := hname.nonempty (String.toList_eq_nil_iff.mp hnil)
  oneLine hmem := absurd rfl (hname.plain _ hmem).2.2.2

/-- A written type reads back. -/
theorem Conforms.readType_writeType (h : dialect.Conforms) {type : DataType}
    (hordered : type.IsOrdered) (hname : type.NameSatisfies IsTypeName) :
    dialect.readType (dialect.writeType type).toList = .ok type :=
  DataType.decodeWith_spellWith_of_base h.isNotation hordered
    (hname.imp fun _ => h.isBaseName)

end Dialect

end PlcTypes.StructuredText

namespace PlcTypes

open Text

/-- An initial value that can stand in a declaration: a real is finite, and a text without quotes
ends on the line before the next semicolon and does not look quoted. -/
def Literal.IsDeclarable (type : DataType) : Literal → Prop
  | .real value => value.isFinite = true
  | .text value => type.isString = false →
    (∀ c ∈ value.toList, c ≠ ';' ∧ c ≠ '\r' ∧ c ≠ '\n') ∧ value.toList.head? ≠ some '\''
  | _ => True

instance (type : DataType) : (value : Literal) → Decidable (value.IsDeclarable type)
  | .real value => inferInstanceAs (Decidable (value.isFinite = true))
  | .text value => inferInstanceAs (Decidable (type.isString = false →
    (∀ c ∈ value.toList, c ≠ ';' ∧ c ≠ '\r' ∧ c ≠ '\n') ∧ value.toList.head? ≠ some '\''))
  | .bool _ => inferInstanceAs (Decidable True)
  | .int _ => inferInstanceAs (Decidable True)

/-- A member that can be declared on a line. -/
structure Member.IsDeclarable (member : Member) : Prop where
  built : member.IsBuilt
  name : isIdentifier member.name.toList = true
  ordered : member.type.IsOrdered
  typeName : member.type.NameSatisfies StructuredText.IsTypeName
  initial : ∀ value ∈ member.initial, value.IsDeclarable member.type

namespace StructuredText

open Number

/-- A token of letters, digits, points and minus signs can stand without quotes. -/
theorem isBareToken_of_mem {token : List Char} (hne : token ≠ [])
    (h : ∀ c ∈ token, c.isAlphanum = true ∨ c = '.' ∨ c = '-') : IsBareToken token := by
  have hspace : ∀ c ∈ token, isSpace c = false := by
    intro c hc
    rcases h c hc with halphanum | rfl | rfl
    · exact isSpace_of_isNameChar (by simp [isNameChar, halphanum])
    · decide
    · decide
  have hother {d : Char} (hd : d.isAlphanum = false) (hpoint : d ≠ '.') (hminus : d ≠ '-') :
      ∀ c ∈ token, c ≠ d := by
    rintro c hc rfl
    rcases h c hc with halphanum | heq | heq
    · simp [hd] at halphanum
    · exact hpoint heq
    · exact hminus heq
  refine ⟨hne, isTrimmed_of_all hspace, fun hhead => ?_, fun c hc => ⟨?_, ?_, ?_⟩⟩
  · exact hother (by decide) (by decide) (by decide) _ (List.mem_of_mem_head? hhead) rfl
  all_goals exact hother (by decide) (by decide) (by decide) c hc

/-- A word in any letter case can stand without quotes. -/
theorem isBareToken_of_sameIgnoringCase {token word : List Char}
    (hsame : sameIgnoringCase token word = true) (hne : word ≠ [])
    (hword : ∀ c ∈ word, c.isAlpha = true) : IsBareToken token := by
  rw [sameIgnoringCase_comm] at hsame
  have halpha := isAlpha_of_sameIgnoringCase hsame hword
  refine isBareToken_of_mem ?_ fun c hc => Or.inl (by simp [Char.isAlphanum, halpha c hc])
  rintro rfl
  exact hne (List.length_eq_zero_iff.mp (length_of_sameIgnoringCase hsame).symm)

/-- A numeral can stand without quotes. -/
theorem isBareToken_showInt64 (value : Int64) : IsBareToken (showInt64 value).toList := by
  refine isBareToken_of_mem ?_ fun c hc => ?_
  · rcases toList_showInt64 value with ⟨n, hn⟩ | ⟨n, hn⟩ <;> simp [hn, Nat.toDigits_ne_nil]
  · rcases of_mem_showInt64 hc with hdigit | hminus
    · exact Or.inl (by simp [Char.isAlphanum, hdigit])
    · exact Or.inr (Or.inr hminus)

/-- A real that is finite can stand without quotes. -/
theorem isBareToken_plainReal {value : Binary64} (hfinite : value.isFinite = true) :
    IsBareToken (plainReal value) := by
  obtain ⟨hpoint, hchars⟩ := of_mem_plainReal hfinite
  refine isBareToken_of_mem (List.ne_nil_of_mem hpoint) fun c hc => ?_
  rcases hchars c hc with hdigit | hpoint | hminus
  · exact Or.inl (by simp [Char.isAlphanum, hdigit])
  · exact Or.inr (Or.inl hpoint)
  · exact Or.inr (Or.inr hminus)

/-- A bare token is typed by what it looks like. -/
theorem Dialect.readInitial_bare {token : List Char} (h : IsBareToken token) :
    Dialect.readInitial token = Literal.ofToken token := by
  rw [Dialect.readInitial]
  rintro rest rfl
  exact absurd rfl h.unquoted

/-- A quoted text is read as the text. -/
theorem Dialect.readInitial_quote (text : List Char) :
    Dialect.readInitial (quote text) = .text (String.ofList text) := by
  rw [quote, Dialect.readInitial, if_pos (by simp), List.dropLast_concat, unquote_escaped]

/-- A declarable initial value fitted to its type is written as a quoted text or as a bare token
for it. -/
theorem Dialect.Conforms.writeInitial_cases {dialect : Dialect} (h : dialect.Conforms)
    {type : DataType} {value : Literal} (hfixed : Literal.coerce type value = value)
    (hkeep : (type.isString || !value.isBlankText) = true) (hdeclarable : value.IsDeclarable type) :
    (∃ text, (dialect.writeInitial type value).toList = quote text ∧
        value = .text (String.ofList text)) ∨
      IsBareToken (dialect.writeInitial type value).toList ∧
        Literal.ofToken (dialect.writeInitial type value).toList = value := by
  cases value with
  | bool value =>
    cases value with
    | true =>
      exact Or.inr ⟨isBareToken_of_sameIgnoringCase h.trueWord (by decide) (by decide),
        Literal.ofToken_true h.trueWord⟩
    | false =>
      exact Or.inr ⟨isBareToken_of_sameIgnoringCase h.falseWord (by decide) (by decide),
        Literal.ofToken_false h.falseWord⟩
  | int value => exact Or.inr ⟨isBareToken_showInt64 value, Literal.ofToken_showInt64 value⟩
  | real value =>
    have hfinite : value.isFinite = true := hdeclarable
    have htoken : (dialect.writeInitial type (.real value)).toList = plainReal value :=
      String.toList_ofList
    rw [htoken]
    exact Or.inr ⟨isBareToken_plainReal hfinite, Literal.ofToken_plainReal hfinite⟩
  | text value =>
    cases hstring : type.isString with
    | true =>
      refine Or.inl ⟨value.toList, ?_, by rw [String.ofList_toList]⟩
      simp [Dialect.writeInitial, hstring]
    | false =>
      have htyped : Literal.ofToken value.toList = .text value :=
        Literal.typed_of_coerce hstring hfixed
      have htrim : IsTrimmed value.toList := (Literal.eq_of_ofToken_text htyped).symm
      obtain ⟨hplain, hunquoted⟩ := hdeclarable hstring
      have htoken : (dialect.writeInitial type (.text value)).toList = value.toList := by
        simp [Dialect.writeInitial, hstring]
      rw [htoken]
      refine Or.inr ⟨⟨?_, htrim, hunquoted, hplain⟩, htyped⟩
      intro hnil
      rw [hstring, Bool.false_or, Literal.isBlankText, hnil] at hkeep
      exact absurd hkeep (by decide)

end StructuredText

end PlcTypes
