import PlcTypes.Proofs.Definition
import PlcTypes.Proofs.Format.Markup
import PlcTypes.Proofs.Format.RockwellType

/-!
# Rockwell data type exports read back

The elements around the data type differ from it and from its members in the first character
behind their common start. Escaped names and types cannot end their attributes, and a description
in character data ends where its element does. So every member is read back from the attributes
that were written for it, with its description trimmed, and no initial value survives.
-/

namespace PlcTypes.Rockwell

open Text Number Markup

/-- A member as it is read back from an export. -/
def reread (member : Member) : Member :=
  ⟨member.name, member.type.zeroBased, none, String.ofList (trim member.description.toList)⟩

section MemberHead

/-- How the values of a member are displayed, as an attribute behind a space. -/
def radixChars (type : DataType) : List Char :=
  match radix? type with
  | some radix => ' ' :: attributeChars "Radix".toList radix.toList
  | none => []

/-- The attributes of a member as they are written. -/
def headChars (member : Member) : List Char :=
  attributeChars "Name".toList (escape member.name.toList) ++
    ' ' :: (attributeChars "DataType".toList (escape (writeType member.type).1.toList) ++
      ' ' :: (attributeChars "Dimension".toList (Nat.toDigits 10 (writeType member.type).2) ++
        (radixChars member.type ++ ' ' :: (attributeChars "Hidden".toList "false".toList ++
          ' ' :: attributeChars "ExternalAccess".toList "Read/Write".toList))))

/-- The display of values is an attribute or nothing. -/
theorem toList_radixPart (type : DataType) : (radixPart type).toList = radixChars type := by
  have hopen : " Radix=\"".toList = ' ' :: ("Radix".toList ++ ['=', '"']) := by decide
  have hclose : "\"".toList = ['"'] := by decide
  rw [radixPart, radixChars]
  cases radix? type with
  | none => rfl
  | some radix =>
    simp only [attributeChars, String.toList_append, hopen, hclose, List.append_assoc,
      List.cons_append, List.nil_append, -String.reduceToList]

/-- A member starts with its attributes. -/
theorem toList_writeMember (member : Member) : (writeMember member).toList =
    "          ".toList ++ (tagStart "Member" ++ ' ' ::
      (headChars member ++ (bodyPart member.description).toList)) := by
  have hname : "          <Member Name=\"".toList =
      "          ".toList ++ (tagStart "Member" ++ ' ' :: ("Name".toList ++ ['=', '"'])) := by decide
  have htype : "\" DataType=\"".toList = '"' :: ' ' :: ("DataType".toList ++ ['=', '"']) := by decide
  have hdimension : "\" Dimension=\"".toList =
      '"' :: ' ' :: ("Dimension".toList ++ ['=', '"']) := by decide
  have hclose : "\"".toList = ['"'] := by decide
  have hrest : " Hidden=\"false\" ExternalAccess=\"Read/Write\"".toList =
      ' ' :: (attributeChars "Hidden".toList "false".toList ++
        ' ' :: attributeChars "ExternalAccess".toList "Read/Write".toList) := by decide
  have hwrite : writeMember member =
      "          <Member Name=\"" ++ attributeText member.name ++ "\" DataType=\"" ++
        attributeText (writeType member.type).1 ++ "\" Dimension=\"" ++
        toString (writeType member.type).2 ++ "\"" ++ radixPart member.type ++
        " Hidden=\"false\" ExternalAccess=\"Read/Write\"" ++ bodyPart member.description := rfl
  rw [hwrite]
  unfold headChars
  simp only [String.toList_append, attributeText, String.toList_ofList, hname, htype, hdimension,
    hclose, hrest, toList_radixPart, Nat.toString_eq_repr, Nat.toList_repr, List.append_assoc,
    List.cons_append, List.nil_append, -String.reduceToList]
  simp only [attributeChars, List.append_assoc, List.cons_append, List.nil_append,
    -String.reduceToList]

/-- The display of values is one of two words. -/
theorem radix?_eq {type : DataType} {radix : String} (h : radix? type = some radix) :
    radix = "Float" ∨ radix = "Decimal" := by
  induction type with
  | scalar kind => cases kind <;> simp_all [radix?]
  | array base lower upper ih => exact ih h
  | named name => simp [radix?] at h

/-- The head of a member does not close its element. -/
theorem notMem_headChars (member : Member) : '>' ∉ headChars member := by
  have hkeys : '>' ∉ "Name".toList ∧ '>' ∉ "DataType".toList ∧ '>' ∉ "Dimension".toList ∧
      '>' ∉ "Radix".toList ∧ '>' ∉ attributeChars "Hidden".toList "false".toList ∧
      '>' ∉ attributeChars "ExternalAccess".toList "Read/Write".toList := by decide
  obtain ⟨hname, htype, hdimension, hradix, hhidden, haccess⟩ := hkeys
  have hattribute {key value : List Char} (hkey : '>' ∉ key) (hvalue : '>' ∉ value) :
      '>' ∉ attributeChars key value := by
    simp [attributeChars, hkey, hvalue]
  have hescape (text : List Char) : '>' ∉ escape text := notMem_escape text (by simp)
  have hdigits (n : Nat) : '>' ∉ Nat.toDigits 10 n := notMem_toDigits (by decide) n
  have hdisplay : '>' ∉ radixChars member.type := by
    rw [radixChars]
    split
    · rename_i radix heq
      have hvalue : '>' ∉ radix.toList := by
        rcases radix?_eq heq with rfl | rfl <;> decide
      rw [List.mem_cons, not_or]
      exact ⟨by decide, hattribute hradix hvalue⟩
    · exact List.not_mem_nil
  unfold headChars
  simp only [List.mem_append, List.mem_cons, hattribute hname (hescape _),
    hattribute htype (hescape _), hattribute hdimension (hdigits _), hdisplay, hhidden, haccess,
    or_false, false_or, -String.reduceToList]
  decide

/-- An attribute is taken into account. -/
theorem foldl_attributeChars {key value : List Char} (head : MemberHead) (rest : List Char)
    (hne : key ≠ []) (hkey : ∀ c ∈ key, c.isAlpha = true) (hvalue : '"' ∉ value) :
    (attributes (attributeChars key value ++ rest)).foldl MemberHead.take head =
      (attributes rest).foldl MemberHead.take (head.take (key, unescape value)) := by
  rw [attributes, findAll_attributeChars rest hne hkey hvalue, List.foldl_cons, attributes]

/-- A space between attributes is passed over. -/
theorem attributes_space (rest : List Char) : attributes (' ' :: rest) = attributes rest :=
  findAll_attribute?_space rest

/-- The display of values does not matter. -/
theorem foldl_radixChars (type : DataType) (head : MemberHead) (rest : List Char) :
    (attributes (radixChars type ++ rest)).foldl MemberHead.take head =
      (attributes rest).foldl MemberHead.take head := by
  rw [radixChars]
  split
  · rename_i radix heq
    have hvalue : '"' ∉ radix.toList := by
      rcases radix?_eq heq with rfl | rfl <;> decide
    rw [List.cons_append, attributes_space, foldl_attributeChars head rest (by decide) (by decide)
      hvalue]
    rfl
  · rfl

/-- A written element count is read back. -/
theorem firstDimension_toDigits {n : Nat} (h : n < 2 ^ 64) :
    firstDimension (Nat.toDigits 10 n) = n := by
  have hcomma : ∀ c ∈ Nat.toDigits 10 n, (c != ',') = true := by
    intro c hc
    rw [bne_iff_ne]
    intro heq
    exact notMem_toDigits (by decide) n (heq ▸ hc)
  have htrim : trim (Nat.toDigits 10 n) = Nat.toDigits 10 n :=
    isTrimmed_of_all fun c hc => isSpace_of_isDigit (isDigit_of_mem_toDigits hc)
  rw [firstDimension, List.takeWhile_eq_self_iff.mpr hcomma, htrim, readUInt64_toDigits h,
    Option.getD_some]

/-- The head of a member is read back. -/
theorem memberHead_headChars (member : Member) : MemberHead.of (headChars member) =
    ⟨some member.name.toList, some (writeType member.type).1.toList, (writeType member.type).2,
      false⟩ := by
  have hescape (text : List Char) : '"' ∉ escape text := notMem_escape text (by simp)
  have hquote : '"' ∉ Nat.toDigits 10 (writeType member.type).2 := notMem_toDigits (by decide) _
  have hentity : '&' ∉ Nat.toDigits 10 (writeType member.type).2 := notMem_toDigits (by decide) _
  have hlast : attributeChars "ExternalAccess".toList "Read/Write".toList =
    attributeChars "ExternalAccess".toList "Read/Write".toList ++ [] := (List.append_nil _).symm
  unfold MemberHead.of headChars
  rw [foldl_attributeChars _ _ (by decide) (by decide) (hescape _), attributes_space,
    foldl_attributeChars _ _ (by decide) (by decide) (hescape _), attributes_space,
    foldl_attributeChars _ _ (by decide) (by decide) hquote, foldl_radixChars, attributes_space,
    foldl_attributeChars _ _ (by decide) (by decide) (by decide), attributes_space, hlast,
    foldl_attributeChars _ _ (by decide) (by decide) (by decide), unescape_escape, unescape_escape,
    unescape_of_notMem hentity]
  have hvisible : sameIgnoringCase (unescape "false".toList) "true".toList = false := by decide
  change MemberHead.mk (some member.name.toList) (some (writeType member.type).1.toList)
    (firstDimension (Nat.toDigits 10 (writeType member.type).2))
    (sameIgnoringCase (unescape "false".toList) "true".toList) = _
  rw [firstDimension_toDigits (writeType_count_lt member.type), hvisible]

end MemberHead

section Description

/-- The tags of descriptions and members, as far as they matter. -/
theorem tags_eq : openTag "Description" = "<Description>".toList ∧
    closeTag "Description" = "</Description>".toList ∧ tagStart "Member" = "<Member".toList ∧
    closeTag "Member" = "</Member>".toList := by decide

/-- A description is read back trimmed from between the white space around its element. -/
theorem firstElement?_description {before : List Char} {text : String} (rest : List Char)
    (hbefore : '>' ∉ before) (htext : ¬"</Description>".toList <:+: text.toList) :
    firstElement? "Description" (before ++ ((element "Description" text).toList ++ rest)) =
      some (trim text.toList) := by
  obtain ⟨hopen, hclose, -, -⟩ := tags_eq
  have hstart : ¬openTag "Description" <:+: before ++ (openTag "Description").dropLast := by
    have hlast : '>' ∉ (openTag "Description").dropLast := by decide
    refine not_infix_of_notMem (show '>' ∈ openTag "Description" by decide) ?_
    rw [List.mem_append, not_or]
    exact ⟨hbefore, hlast⟩
  have hend : ¬closeTag "Description" <:+: characterData text.toList := by
    rw [hclose]
    exact not_occurs_characterData (by decide) (by decide) (by decide) (by decide) htext
  rw [toList_element, List.append_assoc, List.append_assoc]
  exact firstElement?_append rest (by decide) (by decide) hstart hend

variable {description : String}

/-- The description of the data type is an element on a line of its own, or nothing. -/
theorem toList_descriptionPart (description : String) : (descriptionPart description).toList =
    if description.isEmpty then []
    else "        ".toList ++ ((element "Description" description).toList ++ ['\n']) := by
  rw [descriptionPart]
  split
  · rfl
  · simp only [String.toList_append, List.append_assoc, -String.reduceToList]
    rfl

/-- The description of the data type has the tag of a member only where its text has it. -/
theorem not_occurs_descriptionPart (h : ¬"<Member".toList <:+: description.toList) :
    ¬"<Member".toList <:+: (descriptionPart description).toList := by
  rw [toList_descriptionPart]
  split_ifs
  · decide
  · have helement : ¬"<Member".toList <:+: (element "Description" description).toList :=
      not_occurs_element (by decide) (by decide) (by decide) (by decide) (by decide) (by decide) h
    have hindent : "        ".toList = "       ".toList ++ [' '] := by decide
    have hblank : ¬"<Member".toList <:+: "       ".toList := by decide
    have hnil : ¬"<Member".toList <:+: [] := by decide
    rw [hindent, List.append_assoc, List.singleton_append]
    exact not_occurs_between hblank helement hnil (by decide) (by decide)

end Description

section Members

/-- A member that is read back from an export. -/
structure IsExportable (member : Member) : Prop where
  ordered : member.type.IsOrdered
  countable : member.type.IsCountable
  name : member.type.NameSatisfies IsReference
  insideDescription : ¬"</Description>".toList <:+: member.description.toList
  insideMember : ¬"</Member>".toList <:+: member.description.toList

/-- Whatever stands behind the first end of a member in the description, no member starts there. -/
def StaysInside (description : String) : Prop :=
  ∀ parts ∈ cut? (closeTag "Member") description.toList, ¬Opens "Member" parts.2

instance (description : String) : Decidable (StaysInside description) :=
  inferInstanceAs (Decidable (∀ parts ∈ cut? (closeTag "Member") description.toList,
    ¬Opens "Member" parts.2))

/-- A member whose name and type are read back from an export. -/
structure IsRecoverable (member : Member) : Prop where
  ordered : member.type.IsOrdered
  sizable : member.type.IsSizable
  name : member.type.NameSatisfies IsReference
  staysInside : StaysInside member.description

variable {member : Member}

/-- A member that is read back is read back with its name and type. -/
theorem IsExportable.isRecoverable (h : IsExportable member) : IsRecoverable member where
  ordered := h.ordered
  sizable := h.countable.isSizable
  name := h.name
  staysInside := by
    rw [StaysInside, tags_eq.2.2.2, cut?_eq_none h.insideMember]
    simp

/-- A member is read back from its head, with the description that is found in its body. -/
theorem readMember_headChars (h : IsRecoverable member) (body : Option (List Char)) :
    readMember ⟨headChars member, body⟩ = .ok (some ⟨member.name, member.type.zeroBased, none,
      String.ofList ((body.bind (firstElement? "Description")).getD [])⟩) := by
  have htype := memberType_writeType h.ordered h.sizable h.name
  rw [readMember]
  simp only [memberHead_headChars, htype, String.ofList_toList]
  rfl

/-- The head of a member starts with a letter and ends with a quote. -/
theorem headChars_eq (member : Member) : ∃ middle, headChars member = 'N' :: (middle ++ ['"']) := by
  have hname (value : List Char) : attributeChars "Name".toList value =
      'N' :: ("ame".toList ++ '=' :: '"' :: (value ++ ['"'])) := rfl
  have haccess : attributeChars "ExternalAccess".toList "Read/Write".toList =
      "ExternalAccess=\"Read/Write".toList ++ ['"'] := by decide
  unfold headChars
  rw [hname, haccess]
  simp only [List.cons_append, ← List.append_assoc, -String.reduceToList]
  simp only [← List.cons_append, ← List.append_assoc]
  exact ⟨_, rfl⟩

/-- What stands between the tags of a member with a description. -/
def inside (description : String) : List Char :=
  "\n            ".toList ++ ((element "Description" description).toList ++ "\n          ".toList)

/-- The body of a member is its description, or there is none. -/
theorem toList_bodyPart (description : String) : (bodyPart description).toList =
    if description.isEmpty then ['/', '>', '\n']
    else '>' :: (inside description ++ (closeTag "Member" ++ ['\n'])) := by
  have hopen : ">\n            ".toList = '>' :: "\n            ".toList := by decide
  have hclose : "\n          </Member>\n".toList =
      "\n          ".toList ++ (closeTag "Member" ++ ['\n']) := by decide
  rw [bodyPart]
  split
  · rfl
  · unfold inside
    simp only [String.toList_append, hopen, hclose, List.append_assoc, List.cons_append,
      -String.reduceToList]

/-- A description has the end of a member only where its text has it. -/
theorem not_occurs_inside {description : String}
    (h : ¬"</Member>".toList <:+: description.toList) :
    ¬closeTag "Member" <:+: inside description := by
  have hindent : "\n            ".toList = "\n           ".toList ++ [' '] := by decide
  have hend : "\n          ".toList = '\n' :: "          ".toList := by decide
  have helement : ¬"</Member>".toList <:+: (element "Description" description).toList :=
    not_occurs_element (by decide) (by decide) (by decide) (by decide) (by decide) (by decide) h
  have hbefore : ¬"</Member>".toList <:+: "\n           ".toList := by decide
  have hafter : ¬"</Member>".toList <:+: "          ".toList := by decide
  unfold inside
  rw [tags_eq.2.2.2, hindent, hend, List.append_assoc, List.singleton_append]
  exact not_occurs_between hbefore helement hafter (by decide) (by decide)

/-- The first end of a member in a description cuts what stands between the tags of the member. -/
theorem cut?_inside {description : String} {before after : List Char} (rest : List Char)
    (h : cut? (closeTag "Member") description.toList = some (before, after)) :
    ∃ body, cut? (closeTag "Member") (inside description ++ (closeTag "Member" ++ rest)) =
      some (body, (splitSections after ++ "]]></Description>\n          </Member".toList) ++
        '>' :: rest) := by
  have hbefore : ¬"</Member>".toList <:+: before := by
    rw [← tags_eq.2.2.2]
    exact not_occurs_of_cut? (closeTag_ne_nil "Member") h
  have hsplit : splitSections description.toList =
      splitSections before ++ (closeTag "Member" ++ splitSections after) := by
    have htag : closeTag "Member" = '<' :: "/Member>".toList := by decide
    rw [eq_of_cut? h, htag, List.cons_append, splitSections_append_cons _ _ (by decide),
      splitSections_append_of_notMem _ (by decide), List.cons_append]
  have hlead : "\n            ".toList ++ (openTag "Description" ++ sectionStart) =
      "\n            <Description><![CDATA".toList ++ ['['] := by decide
  have htrail : sectionEnd ++ (closeTag "Description" ++ ("\n          ".toList ++ closeTag "Member")) =
      "]]></Description>\n          </Member".toList ++ ['>'] := by decide
  have hinside : inside description ++ (closeTag "Member" ++ rest) =
      ("\n            <Description><![CDATA".toList ++ '[' :: splitSections before) ++
        (closeTag "Member" ++ ((splitSections after ++
          "]]></Description>\n          </Member".toList) ++ '>' :: rest)) := by
    calc inside description ++ (closeTag "Member" ++ rest)
        = ("\n            ".toList ++ (openTag "Description" ++ sectionStart)) ++
            (splitSections before ++ (closeTag "Member" ++ (splitSections after ++
              ((sectionEnd ++ (closeTag "Description" ++
                ("\n          ".toList ++ closeTag "Member"))) ++ rest)))) := by
          unfold inside
          rw [toList_element, characterData, hsplit]
          simp only [List.append_assoc]
      _ = _ := by
          rw [hlead, htrail]
          simp only [List.append_assoc, List.cons_append, List.nil_append, -String.reduceToList]
  have hfirst : ¬closeTag "Member" <:+:
      "\n            <Description><![CDATA".toList ++ '[' :: splitSections before := by
    rw [tags_eq.2.2.2, infix_append_cons_iff (by decide), not_or]
    exact ⟨by decide,
      not_occurs_splitSections (by decide) (by decide) (by decide) (by decide) hbefore⟩
  rw [hinside]
  exact ⟨_, cut?_closeTag _ (by decide) hfirst⟩

/-- Behind the head of a member its element ends or its body starts. -/
theorem takeElement?_headChars (member : Member) (rest : List Char) :
    takeElement? "Member" (tagStart "Member" ++ ' ' :: (headChars member ++ '/' :: '>' :: rest)) =
        some (⟨headChars member, none⟩, rest) ∧
      takeElement? "Member" (tagStart "Member" ++ ' ' :: (headChars member ++ '>' :: rest)) =
        (cut? (closeTag "Member") rest).map fun (body, after) =>
          (⟨headChars member, some body⟩, after) := by
  obtain ⟨middle, hhead⟩ := headChars_eq member
  have hletter : isSpace 'N' = false := by decide
  have hangle : '>' ∉ headChars member := notMem_headChars member
  constructor
  · rw [List.append_cons (headChars member), takeElement?_eq _ (by simp [hhead, hletter]) (by simp)
      (by simp [hangle]), if_pos (by simp), List.dropLast_concat]
  · have hlast : (headChars member).getLast? ≠ some '/' := by
      rw [hhead, ← List.cons_append, List.getLast?_concat]
      decide
    rw [takeElement?_eq _ (by simp [hhead, hletter]) (by simp [hhead]) hangle, if_neg hlast]

/-- What a description leaves behind the first end of a member in it opens no member, and neither does
the end of the member that is written behind it. -/
theorem findAll_behind_description {description : String} {before after : List Char}
    (h : StaysInside description)
    (hcut : cut? (closeTag "Member") description.toList = some (before, after)) (rest : List Char) :
    findAll (takeElement? "Member") ((splitSections after ++
        "]]></Description>\n          </Member".toList) ++ '>' :: rest) =
      findAll (takeElement? "Member") rest := by
  have hend : "]]></Description>\n          </Member".toList =
      ']' :: "]></Description>\n          </Member".toList := by decide
  have hsections : ¬Opens "Member" (splitSections after) :=
    not_opens_splitSections (by decide) (by decide) (by decide) (h _ hcut)
  refine findAll_append_of_not_opens rest ?_ (by decide) (by decide)
  rw [hend, opens_append_cons_iff (by decide) (by decide), not_or]
  exact ⟨hsections, by decide⟩

/-- Behind the head of a member stands its body, if it has a description. The search for members goes
on behind the member. -/
theorem takeElement?_member (h : StaysInside member.description) (rest : List Char) :
    ∃ body tail, takeElement? "Member" (tagStart "Member" ++ ' ' ::
        (headChars member ++ ((bodyPart member.description).toList ++ rest))) =
          some (⟨headChars member, body⟩, tail) ∧
      findAll (takeElement? "Member") tail = findAll (takeElement? "Member") rest ∧
      (¬"</Description>".toList <:+: member.description.toList →
        ¬"</Member>".toList <:+: member.description.toList →
          (body.bind (firstElement? "Description")).getD [] = trim member.description.toList) := by
  have hfeed : findAll (takeElement? "Member") ('\n' :: rest) =
      findAll (takeElement? "Member") rest :=
    findAll_cons_of_reject (takeElement?_eq_none
      (after?_eq_none_of_notMem rest (by decide) (by decide)))
  rw [toList_bodyPart]
  split_ifs with hempty
  · refine ⟨none, '\n' :: rest, (takeElement?_headChars member _).1, hfeed, fun _ _ => ?_⟩
    rw [String.isEmpty_iff.mp hempty]
    rfl
  · simp only [List.cons_append, List.append_assoc, List.nil_append]
    rw [(takeElement?_headChars member _).2]
    cases hcut : cut? (closeTag "Member") member.description.toList with
    | none =>
      have hinside := not_occurs_of_cut?_eq_none hcut
      rw [tags_eq.2.2.2] at hinside
      rw [cut?_closeTag ('\n' :: rest) (by decide) (not_occurs_inside hinside), Option.map_some]
      refine ⟨_, _, rfl, hfeed, fun hdescription _ => ?_⟩
      rw [Option.bind_some]
      unfold inside
      rw [firstElement?_description _ (by decide) hdescription, Option.getD_some]
    | some parts =>
      obtain ⟨body, hbody⟩ := cut?_inside ('\n' :: rest) hcut
      rw [hbody, Option.map_some]
      refine ⟨_, _, rfl, ?_, fun _ hinside => ?_⟩
      · rw [findAll_behind_description h hcut, hfeed]
      · rw [tags_eq.2.2.2, cut?_eq_none hinside] at hcut
        simp at hcut

/-- A written member is found and read back with its name and type, and the search goes on behind it.
If its description has no tag that would end it early, all of it is read back. -/
theorem findAll_writeMember (h : IsRecoverable member) (rest : List Char) :
    ∃ found read, findAll (takeElement? "Member") ((writeMember member).toList ++ rest) =
        found :: findAll (takeElement? "Member") rest ∧
      readMember found = .ok (some read) ∧ read.outline = (member.name, member.type.zeroBased) ∧
      (¬"</Description>".toList <:+: member.description.toList →
        ¬"</Member>".toList <:+: member.description.toList → read = reread member) := by
  obtain ⟨body, tail, htake, htail, hbody⟩ := takeElement?_member h.staysInside rest
  refine ⟨⟨headChars member, body⟩, _, ?_, readMember_headChars h body, rfl, fun hend hinside => ?_⟩
  · have hindent : "          ".toList = "         ".toList ++ [' '] := by decide
    have hreject (text : List Char) (hnone : after? (tagStart "Member") text = none) :
        takeElement? "Member" text = none := takeElement?_eq_none hnone
    rw [toList_writeMember, hindent]
    simp only [List.append_assoc, List.cons_append, List.nil_append, -String.reduceToList]
    rw [findAll_append_of_not_occurs _ hreject (by decide) (by decide) (by decide),
      findAll_of_accept (advances_takeElement? "Member") htake, htail]
  · rw [hbody hend hinside]
    rfl

/-- Members are written one behind the other. -/
theorem toList_join_cons (member : Member) (others : List Member) :
    (String.join ((member :: others).map writeMember)).toList =
      (writeMember member).toList ++ (String.join (others.map writeMember)).toList := by
  rw [List.map_cons, String.join_cons, String.toList_append]

/-- Written members are read back in order with their names and types, and as a whole if no
description has a tag that would end it early. -/
theorem readMembers_join {members : List Member} (h : ∀ member ∈ members, IsRecoverable member)
    {rest : List Char} (hrest : findAll (takeElement? "Member") rest = []) :
    ∃ reads, (findAll (takeElement? "Member")
        ((String.join (members.map writeMember)).toList ++ rest)).mapM readMember =
          .ok (reads.map some) ∧
      reads.map Member.outline =
        members.map (fun member => (member.name, member.type.zeroBased)) ∧
      ((∀ member ∈ members, IsExportable member) → reads = members.map reread) := by
  induction members with
  | nil =>
    have hnil : (String.join ([].map writeMember)).toList = [] := rfl
    rw [hnil, List.nil_append, hrest]
    exact ⟨[], rfl, rfl, fun _ => rfl⟩
  | cons member others ih =>
    obtain ⟨found, read, hfound, hread, houtline, hexact⟩ :=
      findAll_writeMember (h member List.mem_cons_self)
        ((String.join (others.map writeMember)).toList ++ rest)
    obtain ⟨reads, hreads, houtlines, hall⟩ :=
      ih fun other hother => h other (List.mem_cons_of_mem _ hother)
    refine ⟨read :: reads, ?_, ?_, fun hexport => ?_⟩
    · rw [toList_join_cons, List.append_assoc, hfound, List.mapM_cons, hread, hreads]
      rfl
    · rw [List.map_cons, List.map_cons, houtline, houtlines]
    · have hmember := hexport member List.mem_cons_self
      rw [List.map_cons, hexact hmember.insideDescription hmember.insideMember,
        hall fun other hother => hexport other (List.mem_cons_of_mem _ hother)]

end Members

section DataType

/-- What stands in front of the list of data types. -/
def controllerPart : List Char :=
  "<?xml version=\"1.0\" encoding=\"UTF-8\" standalone=\"yes\"?>\n".toList ++
    ("<RSLogix5000Content SchemaRevision=\"1.0\" SoftwareRevision=\"32.00\">\n".toList ++
      ("  <Controller Use=\"Context\" Name=\"MainController\">\n".toList ++ "   ".toList))

/-- The rest of the tag of the list of data types. -/
def listPart : List Char := "DataTypes Use=\"Context\">\n     ".toList

/-- What stands behind the members. -/
def afterMembers : List Char :=
  "        </Members>\n      </DataType>\n    </DataTypes>\n  </Controller>\n".toList ++
    "</RSLogix5000Content>".toList

/-- What stands behind the head of the data type. -/
def body (d : Definition) : List Char :=
  '\n' :: ((descriptionPart d.description).toList ++ ("        <Members>\n".toList ++
    ((String.join (d.members.map writeMember)).toList ++ (afterMembers ++ ['\n']))))

/-- A data type is written behind the elements around it. -/
theorem toList_generate (d : Definition) : (generate d).toList =
    controllerPart ++ ' ' :: '<' :: (listPart ++ ' ' :: ("<DataType".toList ++ ' ' ::
      ("Name=\"".toList ++ (escape d.name.toList ++ '"' ::
        (" Family=\"NoFamily\" Class=\"User\"".toList ++ '>' :: body d))))) := by
  have hlist : "    <DataTypes Use=\"Context\">\n".toList =
      "   ".toList ++ ' ' :: '<' :: "DataTypes Use=\"Context\">\n".toList := by decide
  have hpart : listPart = "DataTypes Use=\"Context\">\n".toList ++ "     ".toList := by decide
  have hopen : "      <DataType Name=\"".toList =
      "     ".toList ++ ' ' :: ("<DataType".toList ++ ' ' :: "Name=\"".toList) := by decide
  have hclose : "\" Family=\"NoFamily\" Class=\"User\">\n".toList =
      '"' :: (" Family=\"NoFamily\" Class=\"User\"".toList ++ ['>', '\n']) := by decide
  have hend : afterMembers ++ ['\n'] = "        </Members>\n".toList ++ ("      </DataType>\n".toList ++
      ("    </DataTypes>\n".toList ++ ("  </Controller>\n".toList ++
        "</RSLogix5000Content>\n".toList))) := by decide
  rw [hpart]
  unfold generate controllerPart body
  simp only [String.toList_append, attributeText, String.toList_ofList, hlist, hopen, hclose, hend,
    List.append_assoc, List.cons_append, List.nil_append, -String.reduceToList]

/-- The head of a data type is read up to its closing angle bracket. -/
theorem head?_append (name rest : List Char) :
    head? ("<DataType".toList ++ ' ' :: ("Name=\"".toList ++ (escape name ++ '"' ::
      (" Family=\"NoFamily\" Class=\"User\"".toList ++ '>' :: rest)))) = some (name, rest) := by
  have hquote : '"' ∉ escape name := notMem_escape name (by simp)
  have hangle : '>' ∉ " Family=\"NoFamily\" Class=\"User\"".toList := by decide
  have hdrop (text : List Char) : (' ' :: ("Name=\"".toList ++ text)).dropWhile isSpace =
      "Name=\"".toList ++ text := by
    have hkey : "Name=\"".toList = 'N' :: "ame=\"".toList := by decide
    rw [hkey, List.cons_append, List.dropWhile_cons_of_pos (by decide),
      List.dropWhile_cons_of_neg (by decide)]
  simp only [head?, bind, after?_append, Option.bind_some]
  rw [startsWithSpace, if_pos (by decide), hdrop, after?_append, Option.bind_some,
    cut?_singleton _ hquote, Option.bind_some]
  simp only
  rw [cut?_singleton _ hangle, Option.bind_some]
  simp only [unescape_escape]

/-- The data type found is the one that was written. -/
theorem find?_generate (d : Definition) :
    (find? (fun _ => head?) none (generate d).toList).map (fun hit => (hit.found, hit.rest)) =
      some (d.name.toList, body d) := by
  have hreject (previous : Option Char) (text : List Char)
      (hnone : after? "<DataType".toList text = none) : head? text = none := by
    simp only [head?, bind, hnone, Option.bind_none]
  have hcontroller : ¬"<DataType".toList <:+: controllerPart := by decide +kernel
  -- the list of data types starts like a data type but goes on with a letter
  have hlist (rest : List Char) : head? ('<' :: (listPart ++ rest)) = none := by
    have hsplit : '<' :: listPart = "<DataType".toList ++ 's' :: " Use=\"Context\">\n     ".toList := by
      decide
    rw [← List.cons_append, hsplit, List.append_assoc]
    simp only [head?, bind, after?_append, Option.bind_some]
    rw [List.cons_append, startsWithSpace, if_neg (by decide)]
  have hpass (rest : List Char) : find? (fun _ => head?) (some ' ') ('<' :: (listPart ++ rest)) =
      (find? (fun _ => head?) (some '<') (listPart ++ rest)).map
        fun hit => { hit with before := '<' :: hit.before } := by
    rw [find?, hlist]
  rw [toList_generate, find?_append_of_not_occurs _ hreject hcontroller (by decide) (by decide), hpass,
    find?_append_of_not_occurs _ hreject (by decide) (by decide) (by decide),
    find?_of_accept (head?_append d.name.toList (body d))]
  rfl

variable {d : Definition}

/-- What stands before the members has no tag of a member. -/
theorem not_occurs_beforeMembers (h : ¬"<Member".toList <:+: d.description.toList) :
    ¬"<Member".toList <:+: '\n' :: ((descriptionPart d.description).toList ++ "       ".toList) := by
  have hindent : "       ".toList = ' ' :: "      ".toList := by decide
  rw [hindent, infix_cons_iff_of_notMem (by decide) (by decide), infix_append_cons_iff (by decide)]
  intro hoccurs
  rcases hoccurs with hoccurs | hoccurs
  · exact not_occurs_descriptionPart h hoccurs
  · exact absurd hoccurs (by decide)

/-- The description of the data type is looked for before the members. -/
theorem beforeMembers_body (h : ¬"<Member".toList <:+: d.description.toList) : beforeMembers (body d) =
    '\n' :: ((descriptionPart d.description).toList ++ "        ".toList) := by
  have hsplit : body d = ('\n' :: ((descriptionPart d.description).toList ++ "        ".toList)) ++
      ("<Member".toList ++ ("s>\n".toList ++ ((String.join (d.members.map writeMember)).toList ++
        (afterMembers ++ ['\n'])))) := by
    have htag : "        <Members>\n".toList =
        "        ".toList ++ ("<Member".toList ++ "s>\n".toList) := by decide
    unfold body
    rw [htag]
    simp only [List.append_assoc, List.cons_append, -String.reduceToList]
  have hfirst : ¬"<Member".toList <:+:
      ('\n' :: ((descriptionPart d.description).toList ++ "        ".toList)) ++
        "<Member".toList.dropLast := by
    have hindent : "        ".toList = "       ".toList ++ [' '] := by decide
    rw [hindent, ← List.append_assoc, ← List.cons_append, List.append_assoc, List.singleton_append,
      infix_append_cons_iff (by decide)]
    intro hoccurs
    rcases hoccurs with hoccurs | hoccurs
    · exact not_occurs_beforeMembers h hoccurs
    · exact absurd hoccurs (by decide)
  rw [beforeMembers, hsplit, cut?_append _ (by decide) hfirst]
  rfl

/-- The description of the data type is read back trimmed. -/
theorem readDescription_body (hmember : ¬"<Member".toList <:+: d.description.toList)
    (hend : ¬"</Description>".toList <:+: d.description.toList) :
    (firstElement? "Description" (beforeMembers (body d))).getD [] = trim d.description.toList := by
  rw [beforeMembers_body hmember, toList_descriptionPart]
  split_ifs with hempty
  · rw [firstElement?_eq_none (by decide), String.isEmpty_iff.mp hempty]
    rfl
  · have hsplit : '\n' :: ("        ".toList ++ ((element "Description" d.description).toList ++
        ['\n']) ++ "        ".toList) = "\n        ".toList ++
          ((element "Description" d.description).toList ++ "\n        ".toList) := by
      have hstart : "\n        ".toList = '\n' :: "        ".toList := by decide
      rw [hstart]
      simp only [List.append_assoc, List.cons_append, List.nil_append, -String.reduceToList]
    rw [hsplit, firstElement?_description _ (by decide) hend, Option.getD_some]

/-- What stands up to the list of members opens no member. -/
theorem not_opens_beforeMembers (h : ¬Opens "Member" d.description.toList) : ¬Opens "Member"
    ('\n' :: ((descriptionPart d.description).toList ++ "        <Members".toList)) := by
  rw [toList_descriptionPart]
  split_ifs
  · decide
  · have hsplit : '\n' :: ("        ".toList ++ ((element "Description" d.description).toList ++
        ['\n']) ++ "        <Members".toList) = "\n        ".toList ++
          ((element "Description" d.description).toList ++ "\n        <Members".toList) := by
      have hstart : "\n        ".toList = '\n' :: "        ".toList := by decide
      have hend : "\n        <Members".toList = '\n' :: "        <Members".toList := by decide
      rw [hstart, hend]
      simp only [List.append_assoc, List.cons_append, List.nil_append, -String.reduceToList]
    rw [hsplit]
    exact not_opens_around_element (by decide) (by decide) (by decide) (by decide) (by decide) h

/-- The members of the data type are read back with their names and types, and as a whole if no
description has a tag that would end it early. -/
theorem exists_readMembers_body (h : ¬Opens "Member" d.description.toList)
    (hmembers : ∀ member ∈ d.members, IsRecoverable member) :
    ∃ reads, (findAll (takeElement? "Member") (body d)).mapM readMember = .ok (reads.map some) ∧
      reads.map Member.outline =
        d.members.map (fun member => (member.name, member.type.zeroBased)) ∧
      ((∀ member ∈ d.members, IsExportable member) → reads = d.members.map reread) := by
  have hreject (text : List Char) (hnone : after? "<Member".toList text = none) :
      takeElement? "Member" text = none :=
    takeElement?_eq_none (by rw [tags_eq.2.2.1]; exact hnone)
  have hclosed : ¬"<Member".toList <:+: afterMembers := by decide +kernel
  have hafter : findAll (takeElement? "Member") (afterMembers ++ ['\n']) = [] := by
    rw [findAll_append_of_not_occurs [] hreject hclosed (by decide) (by decide), findAll_nil]
  have hsplit : body d =
      ('\n' :: ((descriptionPart d.description).toList ++ "        <Members".toList)) ++
        '>' :: '\n' :: ((String.join (d.members.map writeMember)).toList ++
          (afterMembers ++ ['\n'])) := by
    have htag : "        <Members>\n".toList = "        <Members".toList ++ ['>', '\n'] := by decide
    unfold body
    rw [htag]
    simp only [List.append_assoc, List.cons_append, List.nil_append, -String.reduceToList]
  have hfeed (rest : List Char) : takeElement? "Member" ('\n' :: rest) = none :=
    takeElement?_eq_none (after?_eq_none_of_notMem rest (by decide) (by decide))
  rw [hsplit, findAll_append_of_not_opens _ (not_opens_beforeMembers h) (by decide) (by decide),
    findAll_cons_of_reject (hfeed _)]
  exact readMembers_join hmembers hafter

/-- The members of the data type are read back. -/
theorem readMembers_body (h : ¬"<Member".toList <:+: d.description.toList)
    (hmembers : ∀ member ∈ d.members, IsExportable member) :
    (findAll (takeElement? "Member") (body d)).mapM readMember =
      .ok (d.members.map fun member => some (reread member)) := by
  obtain ⟨reads, hreads, -, hexact⟩ := exists_readMembers_body
    (not_opens_of_not_occurs (by rwa [tags_eq.2.2.1]))
    fun member hmem => (hmembers member hmem).isRecoverable
  rw [hreads, hexact hmembers, List.map_map]
  rfl

end DataType

/-- A definition is read back from its export with its name and its members in order, with every
description trimmed, no initial values and the arrays numbered from zero, if no description has a
tag that would end it early. -/
theorem export_roundTrip {d : Definition} (hdistinct : d.HasDistinctNames)
    (hmembers : ∀ member ∈ d.members, IsExportable member)
    (hmember : ¬"<Member".toList <:+: d.description.toList)
    (hend : ¬"</Description>".toList <:+: d.description.toList) :
    parse (generate d) =
      .ok ⟨d.name, String.ofList (trim d.description.toList), d.members.map reread⟩ := by
  obtain ⟨hit, hfind, hhit⟩ := Option.map_eq_some_iff.mp (find?_generate d)
  obtain ⟨hname, hrest⟩ := Prod.mk.inj hhit
  have hsome : (d.members.map fun member => some (reread member)).filterMap id =
      d.members.map reread := by
    simp [List.filterMap_map]
  rw [parse, hfind]
  simp only [hname, hrest, readMembers_body hmember hmembers, readDescription_body hmember hend,
    Except.map, hsome, String.ofList_toList, hdistinct.bare_pushAll_map reread fun _ => rfl]

/-- A valve with nested arrays, one too large to count, and texts that have to be escaped. -/
def valve : Definition where
  name := "\"Valve\" <1>"
  description := " closes ]]> & opens "
  members :=
    [.of "flow & rate" (.array (.array (.scalar .int) 1 2) (-3) 4) (some (.int 1)) "<![CDATA[ ]]]]>",
      .of "" (.array (.named "ARRAY_2") Int64.minValue Int64.maxValue) none "",
      .of "open" (.scalar .bool) (some (.bool true)) " <Member </Member "]

/-- All members of the valve can be exported. -/
theorem isExportable_valve : ∀ member ∈ valve.members, IsExportable member := by
  intro member hmember
  simp only [valve, List.mem_cons, List.not_mem_nil, or_false] at hmember
  rcases hmember with rfl | rfl | rfl
  · exact ⟨by decide, by decide, trivial, by decide, by decide⟩
  · refine ⟨by decide, by decide, ?_, by decide, by decide⟩
    exact ⟨by decide, by decide, fun kind => by cases kind <;> decide⟩
  · exact ⟨trivial, trivial, trivial, by decide, by decide⟩

/-- The valve is read back from its export. -/
theorem valve_roundTrip : parse (generate valve) =
    .ok ⟨valve.name, String.ofList (trim valve.description.toList), valve.members.map reread⟩ :=
  export_roundTrip (by decide) isExportable_valve (by decide) (by decide)

end PlcTypes.Rockwell
