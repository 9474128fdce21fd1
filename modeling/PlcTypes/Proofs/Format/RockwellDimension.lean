import PlcTypes.Proofs.Format.RockwellMember
import PlcTypes.Proofs.Format.RockwellSize

/-!
# Numbers of elements apart from the type

The number of elements of a member stands in brackets behind its type or apart from the type in an
attribute of its own. Both are read the same as long as the number fits 64 bits, also where it is too
large for an array. A larger number is refused in brackets; apart from the type it goes unnoticed, and
the member is read as a single element.
-/

namespace PlcTypes.Rockwell

open Text Number DataType Markup

/-- The type of an element: an identifier that does not start with the word for arrays. -/
structure IsElementType (type : List Char) : Prop where
  identifier : isIdentifier type = true
  notArray : afterIgnoringCase? "ARRAY".toList type = none

/-- A number of elements in ASCII digits. -/
structure IsSize (size : List Char) : Prop where
  nonempty : size ≠ []
  digits : ∀ c ∈ size, c.isDigit = true
  positive : 1 ≤ Nat.ofDigitChars 10 size 0

/-- Two elements that are the same but for the number of elements, which stands in an attribute of its
own or in brackets behind the type. -/
structure IsRespelled (type size : List Char) (apart joined : Element) : Prop where
  typeApart : lastValue? "DataType" (attributes apart.head) = some type
  sizeApart : lastValue? "Dimension" (attributes apart.head) = some size
  typeJoined : lastValue? "DataType" (attributes joined.head) = some (type ++ '[' :: (size ++ [']']))
  name : lastValue? "Name" (attributes apart.head) = lastValue? "Name" (attributes joined.head)
  hidden : lastValue? "Hidden" (attributes apart.head) = lastValue? "Hidden" (attributes joined.head)
  body : apart.body = joined.body

variable {type size : List Char}

/-- Digits are read as the number they denote if it fits 64 bits. -/
theorem IsSize.readUInt64_eq (h : IsSize size) : readUInt64 size =
    if Nat.ofDigitChars 10 size 0 < 2 ^ 64 then some (Nat.ofDigitChars 10 size 0) else none := by
  obtain ⟨c, rest, rfl⟩ := List.exists_cons_of_ne_nil h.nonempty
  have hplus : c ≠ '+' := by
    rintro rfl
    exact absurd (h.digits _ List.mem_cons_self) (by decide)
  rw [readUInt64, readUnsigned_of_ne rest hplus, readDigits_of_isDigit h.nonempty h.digits,
    Option.filter_some]
  simp only [decide_eq_true_eq]

/-- A number of elements in an attribute is read, or taken for none if it does not fit 64 bits. -/
theorem IsSize.firstDimension_eq (h : IsSize size) : firstDimension size =
    if Nat.ofDigitChars 10 size 0 < 2 ^ 64 then Nat.ofDigitChars 10 size 0 else 0 := by
  have hcomma : ∀ c ∈ size, (c != ',') = true := by
    intro c hc
    rw [bne_iff_ne]
    rintro rfl
    exact absurd (h.digits _ hc) (by decide)
  have htrim : trim size = size := isTrimmed_of_all fun c hc => isSpace_of_isDigit (h.digits c hc)
  rw [firstDimension, List.takeWhile_eq_self_iff.mpr hcomma, htrim, h.readUInt64_eq]
  split <;> rfl

/-- The type of an element has no white space, brackets or line ends. -/
theorem IsElementType.isNameChar (h : IsElementType type) : ∀ c ∈ type, isNameChar c = true :=
  fun _ hc => isNameChar_of_mem h.identifier hc

/-- The type of an element has characters. -/
theorem IsElementType.ne_nil (h : IsElementType type) : type ≠ [] := by
  rintro rfl
  exact absurd h.identifier (by decide)

/-- The type of an element is read as a leaf. -/
theorem IsElementType.readType_eq (h : IsElementType type) : readType type = .ok (leaf type) := by
  have htrim : trim type = type :=
    isTrimmed_of_all fun c hc => isSpace_of_isNameChar (h.isNameChar c hc)
  have hbracket : '[' ∉ type := fun hmem => absurd (h.isNameChar _ hmem) (by decide)
  rw [readType_of_noSize (by rw [htrim]; exact sizedHead?_of_notMem hbracket), htrim, h.notArray]
  rfl

/-- A leaf is no array. -/
theorem isArray_leaf (token : List Char) : (leaf token).isArray = false := by
  rw [leaf]
  split
  · rfl
  · split <;> rfl

/-- A number of elements apart from the type makes an array of the type, and none leaves the type. -/
theorem IsElementType.memberType_eq (h : IsElementType type) (count : ℕ) :
    MemberHead.readType type count = if 0 < count then (leaf type).sized count else .ok (leaf type) := by
  rw [MemberHead.readType, h.readType_eq]
  change (if (0 < count && !(leaf type).isArray) = true then _ else _) = _
  rw [isArray_leaf]
  by_cases hcount : 0 < count
  · simp [hcount]
  · simp [hcount, pure, Except.pure]

/-- A size that does not fit 64 bits is refused. -/
theorem readType_of_unreadable {text base : List Char} (h : sizedHead? (trim text) = some (base, size))
    (hsize : readUInt64 size = none) : readType text = .error (.unreadable (String.ofList size)) := by
  rw [readType]
  split
  · rename_i base' size' heq
    obtain ⟨rfl, rfl⟩ : base = base' ∧ size = size' := by simpa [h] using heq
    simp only [hsize]
  · rename_i heq
    simp [h] at heq

/-- A number apart from the type does not matter where the type is an array or is refused. -/
theorem memberType_of_array {text : List Char} {result : Except BoundError DataType}
    (hread : readType text = result) (harray : ∀ type, result = .ok type → type.isArray = true)
    (count : ℕ) : MemberHead.readType text count = result := by
  rw [MemberHead.readType, hread]
  cases result with
  | error error => rfl
  | ok type => simp [bind, Except.bind, pure, Except.pure, harray type rfl]

/-- A number of elements in brackets makes an array of the type if it fits 64 bits, whatever number
stands apart from the type. -/
theorem IsElementType.memberType_joined (h : IsElementType type) (hsize : IsSize size) (count : ℕ) :
    MemberHead.readType (type ++ '[' :: (size ++ [']'])) count =
      if Nat.ofDigitChars 10 size 0 < 2 ^ 64 then (leaf type).sized (Nat.ofDigitChars 10 size 0)
      else .error (.unreadable (String.ofList size)) := by
  have htrim : trim (type ++ '[' :: (size ++ [']'])) = type ++ '[' :: (size ++ [']']) := by
    refine (isTrimmed_iff _).mpr ⟨fun c hc => ?_, fun c hc => ?_⟩
    · rw [List.head?_append_of_ne_nil _ h.ne_nil] at hc
      exact isSpace_of_isNameChar (h.isNameChar c (List.mem_of_mem_head? hc))
    · rw [← List.cons_append, ← List.append_assoc, List.getLast?_concat, Option.mem_some_iff] at hc
      rw [← hc]
      decide
  have hline : '\n' ∉ type := fun hmem => absurd (h.isNameChar _ hmem) (by decide)
  have hhead := sizedHead?_of_isDigit hsize.nonempty hsize.digits h.ne_nil hline
  rw [← htrim] at hhead
  have hread := hsize.readUInt64_eq
  split_ifs at hread ⊢ with hfits
  · have hsized : readType (type ++ '[' :: (size ++ [']'])) =
        (leaf type).sized (Nat.ofDigitChars 10 size 0) := by
      rw [readType_of_size hhead hread, h.readType_eq, Except.bind]
    refine memberType_of_array hsized (fun array harray => ?_) count
    obtain ⟨lower, upper, -, rfl⟩ := exists_of_sized harray
    rfl
  · exact memberType_of_array (readType_of_unreadable hhead hread) (by simp) count

section Members

variable {apart joined element : Element} {name : List Char}

/-- A member that has a name and is not hidden. -/
structure IsVisible (name : List Char) (element : Element) : Prop where
  name : lastValue? "Name" (attributes element.head) = some name
  notHidden : ∀ value ∈ lastValue? "Hidden" (attributes element.head),
    sameIgnoringCase value "true".toList = false

/-- The number of elements that stands apart from the type of a member, zero for none. -/
def dimension (element : Element) : ℕ :=
  ((lastValue? "Dimension" (attributes element.head)).map firstDimension).getD 0

/-- The description in the body of a member. -/
def bodyText (element : Element) : String :=
  String.ofList ((element.body.bind (firstElement? "Description")).getD [])

/-- A visible member that has a type is read with it or refused for it. -/
theorem readMember_of_isVisible (h : IsVisible name element)
    (htype : lastValue? "DataType" (attributes element.head) = some type) : readMember element =
      match MemberHead.readType type (dimension element) with
      | .error error => .error (.badMember .rockwell (String.ofList name) (.bounds error))
      | .ok type => .ok (some (.of (String.ofList name) type none (bodyText element))) := by
  have hhidden : ((lastValue? "Hidden" (attributes element.head)).map
      (sameIgnoringCase · "true".toList)).getD false = false := by
    cases hvalue : lastValue? "Hidden" (attributes element.head) with
    | none => rfl
    | some value => exact h.notHidden value hvalue
  rw [readMember, MemberHead.of_eq, h.name, htype, hhidden]
  rfl

/-- The two spellings of a number of elements are read the same if it fits 64 bits. -/
theorem IsRespelled.readMember_eq (h : IsRespelled type size apart joined) (htype : IsElementType type)
    (hsize : IsSize size) (hfits : Nat.ofDigitChars 10 size 0 < 2 ^ 64) :
    readMember apart = readMember joined := by
  have hpos : 0 < Nat.ofDigitChars 10 size 0 := hsize.positive
  have hsame (count : ℕ) : MemberHead.readType type (firstDimension size) =
      MemberHead.readType (type ++ '[' :: (size ++ [']'])) count := by
    rw [hsize.firstDimension_eq, if_pos hfits, htype.memberType_eq, if_pos hpos,
      htype.memberType_joined hsize, if_pos hfits]
  rw [readMember, readMember, MemberHead.of_eq, MemberHead.of_eq, h.typeApart, h.sizeApart, h.typeJoined,
    h.name, h.hidden, h.body]
  dsimp only [Option.map_some, Option.getD_some]
  rw [hsame]

/-- Where the number of elements does not fit 64 bits, a member that names it apart from the type is
read as a single element, and one that has it in brackets is refused. -/
theorem IsRespelled.readMember_of_large (h : IsRespelled type size apart joined)
    (htype : IsElementType type) (hsize : IsSize size) (hlarge : 2 ^ 64 ≤ Nat.ofDigitChars 10 size 0)
    (hvisible : IsVisible name apart) :
    readMember apart = .ok (some (.of (String.ofList name) (leaf type) none (bodyText apart))) ∧
      readMember joined = .error (.badMember .rockwell (String.ofList name)
        (.bounds (.unreadable (String.ofList size)))) := by
  have hnot : ¬Nat.ofDigitChars 10 size 0 < 2 ^ 64 := by omega
  have hjoined : IsVisible name joined := ⟨h.name ▸ hvisible.name, h.hidden ▸ hvisible.notHidden⟩
  have hdimension : dimension apart = 0 := by
    rw [dimension, h.sizeApart, Option.map_some, Option.getD_some, hsize.firstDimension_eq, if_neg hnot]
  constructor
  · rw [readMember_of_isVisible hvisible h.typeApart, hdimension, htype.memberType_eq,
      if_neg (Nat.lt_irrefl 0)]
  · rw [readMember_of_isVisible hjoined h.typeJoined, htype.memberType_joined hsize, if_neg hnot]

/-- A file with a member that is refused is refused. -/
theorem IsMemberAt.exists_parse_eq_error {front tail rest : List Char} {error : FormatError}
    (h : IsMemberAt front tail element rest) (herror : readMember element = .error error) :
    ∃ error, parse (String.ofList (front ++ tail)) = .error error := by
  obtain ⟨d, before, hparse, -⟩ := h.exists_parse h
  cases hread : parse (String.ofList (front ++ tail)) with
  | error error => exact ⟨error, rfl⟩
  | ok read =>
    rw [hread] at hparse
    obtain ⟨members, hmembers, -⟩ := map_eq_ok_iff.mp hparse.symm
    obtain ⟨member, hmember⟩ := exists_of_mapM_eq_ok hmembers
      (List.mem_append_right before List.mem_cons_self)
    rw [herror] at hmember
    simp at hmember

/-- A member with its number of elements in an attribute and the same member with it in brackets behind
the type are read the same in any file, as the same array or with the same refusal, if the number fits
64 bits. A larger number leaves the one member without the array and has the other one refused. -/
theorem parse_respelled {front tail tail' rest : List Char} (happart : IsMemberAt front tail apart rest)
    (hjoined : IsMemberAt front tail' joined rest) (h : IsRespelled type size apart joined)
    (htype : IsElementType type) (hsize : IsSize size) :
    (Nat.ofDigitChars 10 size 0 < 2 ^ 64 → readMember apart = readMember joined ∧
      parse (String.ofList (front ++ tail)) = parse (String.ofList (front ++ tail'))) ∧
    (2 ^ 64 ≤ Nat.ofDigitChars 10 size 0 → ∀ name, IsVisible name apart →
      readMember apart = .ok (some (.of (String.ofList name) (leaf type) none (bodyText apart))) ∧
      readMember joined = .error (.badMember .rockwell (String.ofList name)
        (.bounds (.unreadable (String.ofList size)))) ∧
      ∃ error, parse (String.ofList (front ++ tail')) = .error error) := by
  refine ⟨fun hfits => ?_, fun hlarge name hvisible => ?_⟩
  · have hsame := h.readMember_eq htype hsize hfits
    obtain ⟨d, before, hparse, hparse'⟩ := happart.exists_parse hjoined
    refine ⟨hsame, ?_⟩
    rw [hparse, hparse', List.mapM_append, List.mapM_append, List.mapM_cons, List.mapM_cons, hsame]
  · obtain ⟨hread, hrefused⟩ := h.readMember_of_large htype hsize hlarge hvisible
    exact ⟨hread, hrefused, hjoined.exists_parse_eq_error hrefused⟩

end Members

/-- What stands before the speeds of a pump. -/
def pumpStart : List Char := "<DataType Name=\"Pump\"><Members><Member Name=\"On\" DataType=\"BIT\"/>".toList

/-- What stands behind the speeds of a pump. -/
def pumpEnd : List Char := "<Member Name=\"Level\" DataType=\"INT\"/></Members></DataType>".toList

/-- The speeds of a pump, with their type spelled out. -/
def speeds (spelled : String) : Element := ⟨("Name=\"Speeds\" " ++ spelled).toList, none⟩

/-- The speeds of a pump in front of the rest of the file. -/
def speedsOn (spelled : String) : List Char :=
  "<Member ".toList ++ ((speeds spelled).head ++ ("/>".toList ++ pumpEnd))

/-- The search for members comes to the speeds of the pump. -/
theorem isMemberAt_speeds {spelled : String}
    (h : takeElement? "Member" (speedsOn spelled) = some (speeds spelled, pumpEnd)) :
    IsMemberAt pumpStart (speedsOn spelled) (speeds spelled) pumpEnd := by
  refine ⟨⟨_, rfl, ?_⟩, h⟩
  -- the opening tag of the list is passed over, and the first member is taken
  iterate 9 refine .skip rfl ?_
  exact .take rfl .here

/-- The speeds of a pump in both spellings. -/
theorem isRespelled_speeds : IsRespelled "REAL".toList "010".toList
      (speeds "Dimension=\"010\" DataType=\"REAL\"") (speeds "DataType=\"REAL[010]\"") ∧
    IsRespelled "REAL".toList "18446744073709551616".toList
      (speeds "Dimension=\"18446744073709551616\" DataType=\"REAL\"")
      (speeds "DataType=\"REAL[18446744073709551616]\"") :=
  ⟨⟨by decide +kernel, by decide +kernel, by decide +kernel, by decide +kernel, by decide +kernel, rfl⟩,
    ⟨by decide +kernel, by decide +kernel, by decide +kernel, by decide +kernel, by decide +kernel, rfl⟩⟩

/-- Ten speeds are read the same in both spellings, and too many to count are not. -/
theorem speeds_respelled :
    parse (String.ofList (pumpStart ++ speedsOn "Dimension=\"010\" DataType=\"REAL\"")) =
      parse (String.ofList (pumpStart ++ speedsOn "DataType=\"REAL[010]\"")) ∧
    readMember (speeds "DataType=\"REAL[18446744073709551616]\"") =
      .error (.badMember .rockwell (String.ofList "Speeds".toList)
        (.bounds (.unreadable (String.ofList "18446744073709551616".toList)))) := by
  have htype : IsElementType "REAL".toList := ⟨by decide, by decide⟩
  have hten : IsSize "010".toList := ⟨by decide, by decide, by decide⟩
  have hmany : IsSize "18446744073709551616".toList := ⟨by decide, by decide, by decide⟩
  refine ⟨?_, ?_⟩
  · exact ((parse_respelled (isMemberAt_speeds rfl) (isMemberAt_speeds rfl) isRespelled_speeds.1 htype
      hten).1 (by decide)).2
  · exact ((parse_respelled (isMemberAt_speeds rfl) (isMemberAt_speeds rfl) isRespelled_speeds.2 htype
      hmany).2 (by decide) "Speeds".toList ⟨by decide +kernel, by decide +kernel⟩).2.1

/-- A number of elements beyond 64 bits is lost apart from the type and refused in brackets. -/
theorem speeds_uncounted :
    (parse (String.ofList (pumpStart ++
        speedsOn "Dimension=\"18446744073709551616\" DataType=\"REAL\""))).map (fun d =>
      d.members.map Member.type) = .ok [.scalar .bool, .scalar .real, .scalar .int] ∧
    parse (String.ofList (pumpStart ++ speedsOn "DataType=\"REAL[18446744073709551616]\"")) =
      .error (.badMember .rockwell "Speeds" (.bounds (.unreadable "18446744073709551616"))) := by
  decide +kernel

end PlcTypes.Rockwell
