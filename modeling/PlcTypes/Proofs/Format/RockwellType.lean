import PlcTypes.Format.Rockwell
import PlcTypes.Proofs.ArraySize
import PlcTypes.Proofs.CanonicalType

/-!
# Rockwell type spellings read back

An array is spelled by the number of its elements behind the spelling of its base, so it reads
back as numbered from zero. An array with too many elements to count is spelled canonically and
reads back as it is. The last bracket tells the two apart: behind it stands either nothing but a
number and the closing bracket or the bounds of the innermost array.
-/

namespace PlcTypes

open Text Number

namespace DataType

/-- The type with its arrays numbered from zero, down to the first that has too many elements to
count. -/
def zeroBased : DataType → DataType
  | array base lower upper =>
    match (array base lower upper).elementCount? with
    | some count => array base.zeroBased 0 (Int64.ofNat (count - 1))
    | none => array base lower upper
  | type => type

example : (array (array (scalar .int) 1 2) (-3) 4).zeroBased =
    array (array (scalar .int) 0 1) 0 7 := by decide

/-- No array level has a number of elements that fits 64 bits but is no 64-bit integer. -/
def IsCountable : DataType → Prop
  | array base lower upper =>
    (∀ count ∈ (array base lower upper).elementCount?, count < 2 ^ 63) ∧ base.IsCountable
  | _ => True

instance decidableIsCountable : (type : DataType) → Decidable type.IsCountable
  | scalar _ => inferInstanceAs (Decidable True)
  | named _ => inferInstanceAs (Decidable True)
  | array base lower upper =>
    have := decidableIsCountable base
    inferInstanceAs (Decidable ((∀ count ∈ (array base lower upper).elementCount?,
      count < 2 ^ 63) ∧ base.IsCountable))

/-- No array level that is spelled by its number of elements has more of them than a 64-bit integer
can tell. Under an array that is spelled by its bounds anything may stand. -/
def IsSizable : DataType → Prop
  | array base lower upper =>
    ∀ count ∈ (array base lower upper).elementCount?, count < 2 ^ 63 ∧ base.IsSizable
  | _ => True

instance decidableIsSizable : (type : DataType) → Decidable type.IsSizable
  | scalar _ => inferInstanceAs (Decidable True)
  | named _ => inferInstanceAs (Decidable True)
  | array base lower upper =>
    have := decidableIsSizable base
    inferInstanceAs (Decidable (∀ count ∈ (array base lower upper).elementCount?,
      count < 2 ^ 63 ∧ base.IsSizable))

/-- What holds of every level holds of the levels that are spelled by their number of elements. -/
theorem IsCountable.isSizable {type : DataType} (h : type.IsCountable) : type.IsSizable := by
  induction type with
  | scalar kind => trivial
  | named name => trivial
  | array base lower upper ih => exact fun count hcount => ⟨h.1 count hcount, ih h.2⟩

end DataType

namespace Rockwell

open DataType

/-- An identifier that is in no letter case a scalar keyword or the word for single bits. -/
structure IsReference (name : String) : Prop where
  identifier : isIdentifier name.toList = true
  notBit : sameIgnoringCase name.toList "BIT".toList = false
  notKeyword : ∀ kind : ScalarKind, sameIgnoringCase kind.keyword.toList name.toList = false

/-- An identifier has letters, digits and underscores only. -/
theorem IsReference.notMem {name : String} (h : IsReference name) {c : Char}
    (hc : isNameChar c = false) : c ∉ name.toList := fun hmem => by
  rw [isNameChar_of_mem h.identifier hmem] at hc
  exact absurd hc (by decide)

/-- A reference is read as a name in the canonical notation too. -/
theorem IsReference.isBaseName {name : String} (h : IsReference name) :
    IsBaseName canonicalLeaf name where
  trimmed := isTrimmed_of_all fun _ hc => isSpace_of_isNameChar (isNameChar_of_mem h.identifier hc)
  notArray := arrayHead?_eq_none (h.notMem (by decide))
  leaf := by rw [canonicalLeaf_of_notKeyword h.notKeyword, String.ofList_toList]
  nonempty hnil := by
    have hidentifier := h.identifier
    rw [hnil] at hidentifier
    exact absurd hidentifier (by decide)
  oneLine := h.notMem (by decide)

/-- A reference is read as a name. -/
theorem IsReference.leaf_eq {name : String} (h : IsReference name) :
    leaf name.toList = .named name := by
  have hfind : (ScalarKind.all.find? fun kind =>
      sameIgnoringCase kind.keyword.toList name.toList) = none := by
    rw [List.find?_eq_none]
    intro kind _
    rw [h.notKeyword kind]
    decide
  rw [leaf, h.notBit, if_neg (by decide), hfind, String.ofList_toList]

/-- A keyword is read as the scalar type. -/
theorem leaf_keyword (kind : ScalarKind) : leaf kind.keyword.toList = .scalar kind := by
  cases kind <;> decide

/-- Digits in brackets are told apart as the size behind what stands before them. -/
theorem sizedHead?_of_isDigit {base size : List Char} (hsize : size ≠ [])
    (hdigits : ∀ c ∈ size, c.isDigit = true) (hne : base ≠ []) (hline : '\n' ∉ base) :
    sizedHead? (base ++ '[' :: (size ++ [']'])) = some (base, size) := by
  have hbracket : '[' ∉ size ++ [']'] := by
    rw [List.mem_append, not_or]
    exact ⟨fun hmem => absurd (hdigits _ hmem) (by decide), by decide⟩
  have hdrop : (size ++ [']']).dropWhile isSpace = size ++ [']'] := by
    obtain ⟨c, rest, rfl⟩ := List.exists_cons_of_ne_nil hsize
    have hc := isSpace_of_isDigit (hdigits c List.mem_cons_self)
    rw [List.cons_append, List.dropWhile_cons_of_neg (by simp [hc])]
  simp only [sizedHead?, bind, cutLast?_append base hbracket, Option.bind_some, hdrop]
  rw [takeDigits?_append [] hsize (fun c hc => isDecimalDigit_of_isDigit (hdigits c hc)) (by decide),
    Option.bind_some]
  simp only
  rw [if_pos ⟨by decide, hne, hline⟩]

/-- A size in brackets is told apart from what stands before it. -/
theorem sizedHead?_append {base : List Char} (count : Nat) (hne : base ≠ []) (hline : '\n' ∉ base) :
    sizedHead? (base ++ '[' :: (Nat.toDigits 10 count ++ [']'])) =
      some (base, Nat.toDigits 10 count) :=
  sizedHead?_of_isDigit Nat.toDigits_ne_nil (fun _ hc => isDigit_of_mem_toDigits hc) hne hline

/-- A spelling without a bracket has no size. -/
theorem sizedHead?_of_notMem {text : List Char} (h : '[' ∉ text) : sizedHead? text = none := by
  rw [sizedHead?, cutLast?_eq_none h]
  rfl

/-- Behind the last bracket of the spelling of an array stand the bounds of an array level. -/
theorem spelling_eq_lastBracket {base : DataType} (lower upper : Int64)
    (hname : base.NameSatisfies IsReference) :
    ∃ before first last, '[' ∉ last ∧ (array base lower upper).spelling.toList =
      before ++ '[' :: ((showInt64 first).toList ++ '.' :: '.' :: last) := by
  have hword : '[' ∉ "ARRAY".toList ∧ '[' ∉ "OF".toList := by decide
  have hbound (bound : Int64) : '[' ∉ (showInt64 bound).toList :=
    notMem_showInt64 (by decide) (by decide) bound
  have hleaf {leaf : List Char} (lower upper : Int64) (h : '[' ∉ leaf) :
      ∃ before first last, '[' ∉ last ∧ arrayText "ARRAY" "OF" lower upper leaf =
        before ++ '[' :: ((showInt64 first).toList ++ '.' :: '.' :: last) := by
    refine ⟨"ARRAY".toList, lower, _, ?_, rfl⟩
    simp only [List.mem_append, List.mem_cons, hbound, hword, h, or_false, false_or]
    decide
  rw [toList_spelling_array]
  induction base generalizing lower upper with
  | scalar kind => exact hleaf lower upper (by cases kind <;> decide)
  | named name => exact hleaf lower upper (IsReference.notMem hname (by decide))
  | array base lower' upper' ih =>
    obtain ⟨before, first, last, hlast, hsplit⟩ := ih lower' upper' hname
    refine ⟨"ARRAY".toList ++ '[' :: ((showInt64 lower).toList ++ '.' :: '.' ::
      ((showInt64 upper).toList ++ ']' :: ' ' :: ("OF".toList ++ ' ' :: before))), first, last,
      hlast, ?_⟩
    rw [toList_spelling_array, hsplit, arrayText]
    simp only [List.append_assoc, List.cons_append]

/-- The canonical spelling of an array has no size behind its last bracket. -/
theorem sizedHead?_spelling {base : DataType} (lower upper : Int64)
    (hname : base.NameSatisfies IsReference) :
    sizedHead? (array base lower upper).spelling.toList = none := by
  obtain ⟨before, first, last, hlast, hsplit⟩ := spelling_eq_lastBracket lower upper hname
  have hbracket : '[' ∉ (showInt64 first).toList ++ '.' :: '.' :: last := by
    intro hmem
    simp only [List.mem_append, List.mem_cons] at hmem
    rcases hmem with hmem | hmem | hmem | hmem
    · exact notMem_showInt64 (by decide) (by decide) first hmem
    · exact absurd hmem (by decide)
    · exact absurd hmem (by decide)
    · exact hlast hmem
  simp only [sizedHead?, bind, hsplit, cutLast?_append before hbracket, Option.bind_some,
    dropWhile_isSpace_showInt64]
  rcases toList_showInt64 first with ⟨n, hn⟩ | ⟨n, hn⟩
  · rw [hn, takeDigits?_toDigits n _ (by decide), Option.bind_some]
    simp only
    rw [List.dropWhile_cons_of_neg (by decide), if_neg (by simp)]
  · rw [hn, List.cons_append, takeDigits?, List.takeWhile_cons_of_neg (by decide)]
    rfl

/-- A size behind a base is read as the number of elements of an array. -/
theorem readType_of_size {text base size : List Char} {count : Nat}
    (h : sizedHead? (trim text) = some (base, size)) (hsize : readUInt64 size = some count) :
    readType text = (readType base).bind fun type => type.sized count := by
  rw [readType]
  split
  · rename_i base' size' heq
    obtain ⟨rfl, rfl⟩ : base = base' ∧ size = size' := by simpa [h] using heq
    simp only [hsize, bind]
  · rename_i heq
    simp [h] at heq

/-- What has no size is a canonical array spelling or a leaf. -/
theorem readType_of_noSize {text : List Char} (h : sizedHead? (trim text) = none) :
    readType text =
      if (afterIgnoringCase? "ARRAY".toList (trim text)).isSome then DataType.ofChars (trim text)
      else .ok (leaf (trim text)) := by
  rw [readType]
  split
  · rename_i heq
    simp [h] at heq
  · rfl

/-- The text of an array that can be counted is the text of its base and the count. -/
theorem writeType_array {base : DataType} {lower upper : Int64} {count : Nat}
    (h : (array base lower upper).elementCount? = some count) :
    (writeType (array base lower upper)).1.toList =
      (writeType base).1.toList ++ '[' :: (Nat.toDigits 10 count ++ [']']) ∧
    (writeType (array base lower upper)).2 = count := by
  rw [writeType, h]
  refine ⟨?_, rfl⟩
  have hopen : "[".toList = ['['] := by decide
  have hclose : "]".toList = [']'] := by decide
  simp only [String.toList_append, Nat.toString_eq_repr, Nat.toList_repr, hopen, hclose,
    List.append_assoc, List.cons_append, List.nil_append, -String.reduceToList]

/-- An array that cannot be counted has its canonical spelling. -/
theorem writeType_uncounted {base : DataType} {lower upper : Int64}
    (h : (array base lower upper).elementCount? = none) :
    writeType (array base lower upper) = ((array base lower upper).spelling, 0) := by
  rw [writeType, h]

/-- The element count that is given apart from a type fits 64 bits. -/
theorem writeType_count_lt (type : DataType) : (writeType type).2 < 2 ^ 64 := by
  cases type with
  | scalar kind => simp [writeType]
  | named name => simp [writeType]
  | array base lower upper =>
    cases hcount : (array base lower upper).elementCount? with
    | none => simp [writeType_uncounted hcount]
    | some count =>
      rw [(writeType_array hcount).2]
      exact (elementCount?_bounds hcount).2

/-- A written type is a trimmed text on one line. -/
theorem writeType_oneLine {type : DataType} (hname : type.NameSatisfies IsReference) :
    IsTrimmed (writeType type).1.toList ∧ (writeType type).1.toList ≠ [] ∧
      '\n' ∉ (writeType type).1.toList := by
  have hspelling {type : DataType} (hname : type.NameSatisfies IsReference) :
      IsTrimmed type.spelling.toList ∧ type.spelling.toList ≠ [] ∧ '\n' ∉ type.spelling.toList :=
    spellWith_oneLine isNotation_canonical (hname.imp fun _ h => h.isBaseName)
  induction type with
  | scalar kind =>
    have hwrite : writeType (scalar kind) = ((scalar kind).spelling, 0) := rfl
    rw [hwrite]
    exact hspelling hname
  | named name =>
    have hwrite : writeType (named name) = ((named name).spelling, 0) := rfl
    rw [hwrite]
    exact hspelling hname
  | array base lower upper ih =>
    cases hcount : (array base lower upper).elementCount? with
    | none =>
      rw [writeType_uncounted hcount]
      exact hspelling hname
    | some count =>
      obtain ⟨htrim, hne, hline⟩ := ih hname
      rw [(writeType_array hcount).1]
      refine ⟨?_, by simp, ?_⟩
      · rw [isTrimmed_iff, List.head?_append_of_ne_nil _ hne]
        refine ⟨((isTrimmed_iff _).mp htrim).1, fun c hc => ?_⟩
        rw [← List.cons_append, ← List.append_assoc, List.getLast?_concat,
          Option.mem_some_iff] at hc
        rw [← hc]
        decide
      · have hdigits : '\n' ∉ Nat.toDigits 10 count := notMem_toDigits (by decide) count
        simp [hline, hdigits]

/-- An array that is spelled by its number of elements is read as its base and sized by it. -/
theorem readType_writeType_array {base : DataType} {lower upper : Int64} {count : Nat}
    (hname : base.NameSatisfies IsReference)
    (hcount : (array base lower upper).elementCount? = some count) :
    readType (writeType (array base lower upper)).1.toList =
      (readType (writeType base).1.toList).bind fun type => type.sized count := by
  obtain ⟨-, hne, hline⟩ := writeType_oneLine hname
  have hwritten : (array base lower upper).NameSatisfies IsReference := hname
  have htrim : trim (writeType (array base lower upper)).1.toList =
      (writeType (array base lower upper)).1.toList := (writeType_oneLine hwritten).1
  refine readType_of_size ?_ (readUInt64_toDigits (elementCount?_bounds hcount).2)
  rw [htrim, (writeType_array hcount).1]
  exact sizedHead?_append count hne hline

/-- A written type reads back with its arrays numbered from zero. -/
theorem readType_writeType {type : DataType} (hordered : type.IsOrdered)
    (hsizable : type.IsSizable) (hname : type.NameSatisfies IsReference) :
    readType (writeType type).1.toList = .ok type.zeroBased := by
  have htrim : trim (writeType type).1.toList = (writeType type).1.toList :=
    (writeType_oneLine hname).1
  have hcanonical : DataType.ofChars type.spelling.toList = .ok type :=
    decodeWith_spellWith_of_base isNotation_canonical hordered (hname.imp fun _ h => h.isBaseName)
  induction type with
  | scalar kind =>
    change trim kind.keyword.toList = kind.keyword.toList at htrim
    change readType kind.keyword.toList = .ok (.scalar kind)
    have hbracket : '[' ∉ kind.keyword.toList := by cases kind <;> decide
    have hword : (afterIgnoringCase? "ARRAY".toList kind.keyword.toList).isSome = false := by
      cases kind <;> decide
    rw [readType_of_noSize (by rw [htrim]; exact sizedHead?_of_notMem hbracket), htrim, hword,
      if_neg (by decide), leaf_keyword]
  | named name =>
    change trim name.toList = name.toList at htrim
    change readType name.toList = .ok (.named name)
    have hbracket : '[' ∉ name.toList := IsReference.notMem hname (by decide)
    rw [readType_of_noSize (by rw [htrim]; exact sizedHead?_of_notMem hbracket), htrim,
      IsReference.leaf_eq hname]
    split
    · exact hcanonical
    · rfl
  | array base lower upper ih =>
    cases hcount : (array base lower upper).elementCount? with
    | none =>
      rw [writeType_uncounted hcount] at htrim ⊢
      have hword : (afterIgnoringCase? "ARRAY".toList
          (array base lower upper).spelling.toList).isSome = true := by
        rw [toList_spelling_array, arrayText, afterIgnoringCase?_append _ (by decide)]
        rfl
      rw [readType_of_noSize (by rw [htrim]; exact sizedHead?_spelling lower upper hname), htrim,
        hword, if_pos rfl, hcanonical, zeroBased, hcount]
    | some count =>
      have hbaseName : base.NameSatisfies IsReference := hname
      obtain ⟨hsmall, hbaseSizable⟩ := hsizable count hcount
      have hbase := ih hordered.2 hbaseSizable hname (writeType_oneLine hbaseName).1
        (decodeWith_spellWith_of_base isNotation_canonical hordered.2
          (hbaseName.imp fun _ h => h.isBaseName))
      rw [readType_writeType_array hbaseName hcount, hbase, Except.bind,
        sized_of_pos (elementCount?_bounds hcount).1 hsmall, zeroBased, hcount]

/-- The element count that is given apart from a type does not make it an array again. -/
theorem memberType_writeType {type : DataType} (hordered : type.IsOrdered)
    (hsizable : type.IsSizable) (hname : type.NameSatisfies IsReference) :
    MemberHead.readType (writeType type).1.toList (writeType type).2 = .ok type.zeroBased := by
  rw [MemberHead.readType, readType_writeType hordered hsizable hname]
  change (if (0 < (writeType type).2 && !type.zeroBased.isArray) = true then _ else _) = _
  rw [if_neg]
  · rfl
  · cases type with
    | scalar kind => simp [writeType]
    | named name => simp [writeType]
    | array base lower upper =>
      rw [zeroBased]
      split <;> simp [isArray]

/-- Leaves are read as canonically, but for the letter case of keywords and for single bits. -/
theorem refinesCanonical : RefinesCanonical leaf := by
  intro token
  rw [leaf]
  split_ifs
  · exact Or.inl ⟨_, rfl⟩
  · cases hfind : ScalarKind.all.find? fun kind => sameIgnoringCase kind.keyword.toList token with
    | some kind => exact Or.inl ⟨kind, rfl⟩
    | none =>
      refine Or.inr ⟨rfl, canonicalLeaf_of_notKeyword fun kind => ?_⟩
      exact Bool.eq_false_iff.mpr (List.find?_eq_none.mp hfind kind (by cases kind <;> decide))

/-- The base of a sized spelling starts the spelling, is not empty and stays on the line. -/
theorem sizedHead?_spec {text base size : List Char} (h : sizedHead? text = some (base, size)) :
    base <+: text ∧ base ≠ [] ∧ '\n' ∉ base := by
  simp only [sizedHead?, bind, Option.bind_eq_some_iff] at h
  obtain ⟨⟨before, inside⟩, hcut, ⟨digits, rest⟩, -, h⟩ := h
  split at h
  · rename_i hplain
    simp only [Option.some.injEq, Prod.mk.injEq] at h
    obtain ⟨rfl, rfl⟩ := h
    exact ⟨⟨_, (eq_of_cutLast? hcut).symm⟩, hplain.2⟩
  · simp at h

/-- A sized spelling is read only if its base is. -/
theorem exists_of_readType {text base size : List Char} {type : DataType}
    (h : sizedHead? (trim text) = some (base, size)) (hread : readType text = .ok type) :
    ∃ inner count, readType base = .ok inner ∧ inner.sized count = .ok type := by
  rw [readType] at hread
  split at hread
  · rename_i base' size' heq
    obtain ⟨rfl, rfl⟩ : base = base' ∧ size = size' := by simpa [h] using heq
    dsimp only at hread
    split at hread
    · simp at hread
    · rename_i count _
      obtain ⟨inner, hinner, hsized⟩ := bind_eq_ok_iff.mp hread
      exact ⟨inner, count, hinner, hsized⟩
  · rename_i heq
    simp [h] at heq

/-- What holds of the types without a size and carries over from a base to the array of a size holds
of every type that was read. -/
theorem readType_induction {motive : List Char → DataType → Prop}
    (hplain : ∀ text leaf type, sizedHead? (trim text) = none → RefinesCanonical leaf →
      decodeWith leaf (trim text) = .ok type → motive text type)
    (hsized : ∀ text base size inner lower upper, sizedHead? (trim text) = some (base, size) →
      lower ≤ upper → motive base inner → motive text (.array inner lower upper))
    {text : List Char} {type : DataType} (h : readType text = .ok type) : motive text type := by
  induction hlength : text.length using Nat.strong_induction_on generalizing text type with
  | h length ih =>
    cases hfound : sizedHead? (trim text) with
    | none =>
      rw [readType_of_noSize hfound] at h
      split at h
      · exact hplain text canonicalLeaf type hfound refinesCanonical_canonicalLeaf h
      · -- without the word for arrays in front the text is a leaf
        rename_i hword
        have htrim : trim (trim text) = trim text := isTrimmed_trim text
        have harray : arrayHead? (trim (trim text)) = none := by
          rw [Bool.not_eq_true, Option.isSome_eq_false_iff, Option.isNone_iff_eq_none] at hword
          rw [htrim, arrayHead?, hword]
          rfl
        refine hplain text leaf type hfound refinesCanonical ?_
        rw [decodeWith_of_leaf harray, htrim]
        exact h
    | some found =>
      obtain ⟨base, size⟩ := found
      obtain ⟨inner, count, hinner, hcount⟩ := exists_of_readType hfound h
      obtain ⟨lower, upper, hle, rfl⟩ := exists_of_sized hcount
      have hshorter : base.length < length :=
        hlength ▸ Nat.lt_of_lt_of_le (sizedHead?_base_length hfound) (length_trim_le text)
      exact hsized text base size inner lower upper hfound hle (ih _ hshorter hinner rfl)

/-- A type that was read is ordered. -/
theorem isOrdered_of_readType {text : List Char} {type : DataType} (h : readType text = .ok type) :
    type.IsOrdered :=
  readType_induction (motive := fun _ type => type.IsOrdered)
    (fun _ _ _ _ hleaf hread => isOrdered_of_decodeWith hleaf hread)
    (fun _ _ _ _ _ _ _ hle hinner => ⟨hle, hinner⟩) h

/-- A type that was read from more than white space on one line has a name that can stand under
arrays. -/
theorem isBaseName_of_readType {text : List Char} {type : DataType} (hne : trim text ≠ [])
    (hline : '\n' ∉ trim text) (h : readType text = .ok type) :
    type.NameSatisfies (IsBaseName canonicalLeaf) := by
  revert hne hline
  refine readType_induction (motive := fun text type => trim text ≠ [] → '\n' ∉ trim text →
    type.NameSatisfies (IsBaseName canonicalLeaf)) ?_ ?_ h
  · intro text leaf type _ hleaf hread hne hline
    have htrim : trim (trim text) = trim text := isTrimmed_trim text
    exact (isBase_of_decodeWith hleaf (fun _ => htrim.symm ▸ ⟨hne, hline⟩) hread).2
  · intro text base size inner lower upper hfound _ hinner _ _
    obtain ⟨⟨after, hafter⟩, hne, hline⟩ := sizedHead?_spec hfound
    obtain ⟨c, rest, rfl⟩ := List.exists_cons_of_ne_nil hne
    have hc : isSpace c = false := by
      refine ((isTrimmed_iff _).mp (isTrimmed_trim text)).1 c ?_
      rw [← hafter]
      rfl
    exact hinner (trim_cons_ne_nil rest hc) fun hmem => hline (mem_of_mem_trim hmem)

/-- An element count apart from a type makes an ordered array around the type or leaves the type. -/
theorem exists_of_memberType {text : List Char} {dimension : Nat} {type : DataType}
    (h : MemberHead.readType text dimension = .ok type) :
    ∃ inner, readType text = .ok inner ∧
      (type = inner ∨ ∃ lower upper, lower ≤ upper ∧ type = .array inner lower upper) := by
  obtain ⟨inner, hinner, h⟩ := bind_eq_ok_iff.mp h
  refine ⟨inner, hinner, ?_⟩
  split at h
  · exact Or.inr (exists_of_sized h)
  · exact Or.inl (by simpa [pure, Except.pure] using h.symm)

/-- A member type that was read is ordered. -/
theorem isOrdered_of_memberType {text : List Char} {dimension : Nat} {type : DataType}
    (h : MemberHead.readType text dimension = .ok type) : type.IsOrdered := by
  obtain ⟨inner, hinner, rfl | ⟨lower, upper, hle, rfl⟩⟩ := exists_of_memberType h
  · exact isOrdered_of_readType hinner
  · exact ⟨hle, isOrdered_of_readType hinner⟩

/-- A member type that was read from more than white space on one line has a name that can stand
under arrays. -/
theorem isBaseName_of_memberType {text : List Char} {dimension : Nat} {type : DataType}
    (hne : trim text ≠ []) (hline : '\n' ∉ trim text)
    (h : MemberHead.readType text dimension = .ok type) :
    type.NameSatisfies (IsBaseName canonicalLeaf) := by
  obtain ⟨inner, hinner, htype⟩ := exists_of_memberType h
  have hname := isBaseName_of_readType hne hline hinner
  rcases htype with rfl | ⟨lower, upper, -, rfl⟩
  · exact hname
  · exact hname

end Rockwell

end PlcTypes
