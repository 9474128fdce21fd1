import PlcTypes.Proofs.StructuredText.Declaration

/-!
# The body of a type declaration

The members of a type are declared on lines of their own, so they are read back in order. None
of these lines ends the type unless a text of a member has the keyword that does, so the end
that is found is the end that was written.
-/

namespace PlcTypes.StructuredText

open Text Number

/-- The keyword that ends a type declaration. -/
def endWord : List Char := "END_TYPE".toList

/-- No text of the member has the keyword that ends a type declaration as a word of its own. -/
structure LeavesOpen (member : Member) : Prop where
  name : ¬StandsAlone endWord member.name.toList
  type : member.type.NameSatisfies fun name => ¬endWord <:+: name.toList
  initial : ∀ value ∈ member.initial, ¬endWord <:+: value.spelling.toList
  description : ¬StandsAlone endWord member.description.toList

/-- A member without the keyword in any text has it in none as a word of its own. -/
theorem LeavesOpen.of_avoids {member : Member} (h : member.Avoids endWord) : LeavesOpen member where
  name := not_standsAlone_of_not_occurs h.name
  type := DataType.nameSatisfies_of_not_occurs h.type
  initial := h.initial
  description := not_standsAlone_of_not_occurs h.description

namespace Dialect

variable {dialect : Dialect} {member : Member}

/-- An initial value stays on its line. -/
theorem Conforms.lineFeed_notMem_writeInitial (h : dialect.Conforms)
    (hmember : dialect.CanDeclare member) {value : Literal} (hvalue : member.initial = some value) :
    '\n' ∉ (dialect.writeInitial member.type value).toList := by
  obtain ⟨hfixed, hkeep⟩ := (Member.isBuilt_iff member).mp hmember.built value hvalue
  rcases h.writeInitial_cases hfixed hkeep (hmember.initial value hvalue) with
    ⟨text, hquote, -⟩ | ⟨hbare, -⟩
  · rw [hquote]
    exact (oneLine_quote text).1
  · exact fun hmem => (hbare.plain _ hmem).2.2 rfl

/-- A declaration stays on its line. -/
theorem Conforms.lineFeed_notMem_declare (h : dialect.Conforms)
    (hmember : dialect.CanDeclare member) : '\n' ∉ (dialect.declare member).toList := by
  have hname : '\n' ∉ member.name.toList := fun hmem =>
    absurd (isNameChar_of_mem hmember.name hmem) (by decide)
  have htype : '\n' ∉ (dialect.writeType member.type).toList := fun hmem =>
    (hmember.typeChars _ hmem).2 rfl
  have hinitial : '\n' ∉ (dialect.initialPart member).toList := by
    cases hvalue : member.initial with
    | none => simp [initialPart, hvalue]
    | some value =>
      rw [toList_initialPart hvalue]
      simp [h.lineFeed_notMem_writeInitial hmember hvalue]
  have hcomment : '\n' ∉ (commentPart member).toList := by
    rcases toList_commentPart member with ⟨hnone, -⟩ | hcomment
    · simp [hnone]
    · simp [hcomment, lineFeed_notMem_foldLine]
  rw [toList_declare]
  simp [hname, htype, hinitial, hcomment]

/-- An initial value without the keyword in it does not end a type declaration. -/
theorem Conforms.isInner_writeInitial (h : dialect.Conforms) {type : DataType} {value : Literal}
    (havoids : ¬endWord <:+: value.spelling.toList) :
    IsInner endWord (dialect.writeInitial type value).toList := by
  have hbool {word name : List Char} (hsame : sameIgnoringCase word name = true)
      (hname : ∀ c ∈ name, c.isAlpha = true) : IsInner endWord word := by
    rw [sameIgnoringCase_comm] at hsame
    refine isInner_of_notMem (show '_' ∈ endWord by decide) fun hmem => ?_
    exact absurd (isAlpha_of_sameIgnoringCase hsame hname _ hmem) (by decide)
  cases value with
  | bool value =>
    cases value with
    | true => exact hbool h.trueWord (by decide)
    | false => exact hbool h.falseWord (by decide)
  | int value => exact isInner_of_not_occurs havoids
  | real value => exact isInner_of_not_occurs havoids
  | text value =>
    rw [writeInitial]
    split
    · rw [String.toList_ofList, quote]
      have hinner : IsInner endWord (value.toList.flatMap escape) :=
        isInner_iff.mpr (isInnerAfter_escaped none (by decide) (by decide) (by decide) havoids)
      have hend : IsInner endWord ([] : List Char) := isInner_of_not_occurs (by decide)
      exact (hinner.append_cons hend (by decide)).cons (by decide) (by decide)
    · exact isInner_of_not_occurs havoids

/-- A declaration in which the keyword is nowhere a word of its own does not end a type declaration. -/
theorem Conforms.not_standsAlone_declare (h : dialect.Conforms) (hopen : LeavesOpen member) :
    ¬StandsAlone endWord (dialect.declare member).toList := by
  have hnil : ¬StandsAlone endWord [] := by decide
  have htype : ¬StandsAlone endWord (dialect.writeType member.type).toList :=
    not_standsAlone_of_not_occurs
      (DataType.not_infix_spellWith h.isNotation (by decide) (by decide) hopen.type)
  have hcomment : ¬StandsAlone endWord (commentPart member).toList := by
    rcases toList_commentPart member with ⟨hnone, -⟩ | hcomment
    · rw [hnone]
      exact hnil
    · have hfold : ¬StandsAlone endWord (foldLine member.description.toList) := fun halone =>
        hopen.description (halone.of_foldLine (by decide) (by decide))
      have hseparator : ∀ c ∈ [' ', '/', '/', ' '], c ∉ endWord := by decide
      rw [hcomment]
      exact not_standsAlone_append_separators hfold (by decide) hseparator
  have hvalue : ¬StandsAlone endWord ((dialect.writeType member.type).toList ++
      ((dialect.initialPart member).toList ++ ';' :: (commentPart member).toList)) := by
    cases hvalue : member.initial with
    | none =>
      have hpart : (dialect.initialPart member).toList = [] := by simp [initialPart, hvalue]
      rw [hpart, List.nil_append]
      exact not_standsAlone_append_cons htype hcomment (by decide)
    | some value =>
      have hinitial : ¬StandsAlone endWord (dialect.writeInitial member.type value).toList :=
        (h.isInner_writeInitial (hopen.initial value hvalue)).not_standsAlone
      have hseparator : ∀ c ∈ [':', '=', ' '], c ∉ endWord := by decide
      have hend := not_standsAlone_append_cons hinitial hcomment (show ';' ∉ endWord by decide)
      have hassign := not_standsAlone_append_separators hend (by decide) hseparator
      rw [toList_initialPart hvalue]
      exact not_standsAlone_append_cons htype hassign (by decide)
  have hseparator : ∀ c ∈ [':', ' '], c ∉ endWord := by decide
  have htail := not_standsAlone_append_separators hvalue (by decide) hseparator
  rw [toList_declare]
  exact not_standsAlone_append_cons hopen.name htail (by decide)

section DeclareAll

variable {indent : String} {members : List Member}

/-- The declarations of members are written line by line. -/
theorem toList_declareAll_cons (dialect : Dialect) (indent : String) (member : Member)
    (members : List Member) : (dialect.declareAll indent (member :: members)).toList =
      (indent.toList ++ (dialect.declare member).toList) ++
        '\n' :: (dialect.declareAll indent members).toList := by
  simp [declareAll, String.toList_append]

/-- Members that can be declared read back in order from their lines, if the rest of the text
declares nothing. -/
theorem Conforms.readMembers_declareAll (h : dialect.Conforms)
    (hindent : ∀ c ∈ indent.toList, isBlank c = true)
    (hmembers : ∀ member ∈ members, dialect.CanDeclare member) {rest : List Char}
    (hrest : Declaration.all rest = []) :
    dialect.readMembers ((dialect.declareAll indent members).toList ++ rest) =
      .ok (members.map folded) := by
  induction members with
  | nil =>
    have hnil : (dialect.declareAll indent []).toList = [] := rfl
    rw [hnil, List.nil_append, readMembers, hrest]
    rfl
  | cons member others ih =>
    have hmember := hmembers member List.mem_cons_self
    obtain ⟨declaration, hline, hread⟩ := h.readDeclaration_declare hindent hmember
    have hfeed : '\n' ∉ indent.toList ++ (dialect.declare member).toList := by
      rw [List.mem_append, not_or]
      exact ⟨fun hmem => absurd (hindent _ hmem) (by decide), h.lineFeed_notMem_declare hmember⟩
    have hothers := ih fun other hother => hmembers other (List.mem_cons_of_mem _ hother)
    rw [readMembers] at hothers ⊢
    rw [toList_declareAll_cons, List.append_assoc, List.cons_append, Declaration.all_append_lineFeed,
      Declaration.all_of_oneLine hfeed, hline, Option.toList_some, List.singleton_append,
      List.mapM_cons, hread, hothers]
    rfl

/-- Declarations in which the keyword is nowhere a word of its own do not end a type declaration. -/
theorem Conforms.not_standsAlone_declareAll (h : dialect.Conforms)
    (hindent : ∀ c ∈ indent.toList, isBlank c = true)
    (hopen : ∀ member ∈ members, LeavesOpen member) {rest : List Char}
    (hrest : ¬StandsAlone endWord rest) :
    ¬StandsAlone endWord ((dialect.declareAll indent members).toList ++ rest) := by
  have hseparator : ∀ c ∈ indent.toList, c ∉ endWord := by
    intro c hc
    have hblank := hindent c hc
    simp only [isBlank, Bool.or_eq_true, beq_iff_eq] at hblank
    rcases hblank with rfl | rfl <;> decide
  induction members with
  | nil => exact hrest
  | cons member others ih =>
    have hothers := ih fun other hother => hopen other (List.mem_cons_of_mem _ hother)
    have hline := not_standsAlone_append_separators
      (h.not_standsAlone_declare (hopen member List.mem_cons_self)) (by decide) hseparator
    rw [toList_declareAll_cons, List.append_assoc, List.cons_append]
    exact not_standsAlone_append_cons hline hothers (by decide)

end DeclareAll

end Dialect

/-- The end of a type declaration is the first place where the keyword stands on its own. -/
theorem afterEnd?_append {start rest : List Char} (hstart : ¬StandsAlone endWord start)
    (hrest : startsOutsideWord rest = true) :
    afterEnd? (start ++ '\n' :: (endWord ++ rest)) = some rest := by
  have hread (previous : Option Char) (text : List Char) (hit : Unit × List Char)
      (hhit : endOfType? previous text = some hit) : previous.any isWordChar = false ∧
        ∃ after, text = endWord ++ after ∧ startsOutsideWord after = true := by
    obtain ⟨after, hkeyword, hend⟩ := Option.bind_eq_some_iff.mp hhit
    obtain ⟨hprevious, htext⟩ := keywordAfter?_eq_some_iff.mp hkeyword
    split at hend
    · rename_i houtside
      exact ⟨hprevious, after, htext, houtside⟩
    · simp at hend
  have haccept : endOfType? (some '\n') (endWord ++ rest) = some ((), rest) := by
    have hkeyword : keywordAfter? (some '\n') "END_TYPE".toList (endWord ++ rest) = some rest :=
      keywordAfter?_eq_some_iff.mpr ⟨by decide, rfl⟩
    rw [endOfType?, hkeyword, Option.bind_some, if_pos hrest]
  rw [afterEnd?, find?_append_of_not_standsAlone _ hread hstart (by decide) (by decide),
    find?_of_accept haccept]
  rfl

namespace Dialect

/-- What stands behind the colon of a type declaration of the standard, with a tail behind its end. -/
def typeBody (dialect : Dialect) (indent : String) (members : List Member) (tail : List Char) :
    List Char :=
  "\nSTRUCT\n".toList ++ ((dialect.declareAll indent members).toList ++
    ("END_STRUCT".toList ++ '\n' :: (endWord ++ '\n' :: tail)))

/-- A type declaration of the standard is its head and its body. -/
theorem toList_declareType (dialect : Dialect) (indent : String) (d : Definition)
    (tail : List Char) : (dialect.declareType indent d).toList ++ tail =
      "TYPE ".toList ++ (d.name.toList ++ ' ' :: ':' :: dialect.typeBody indent d.members tail) := by
  have hhead : " :\nSTRUCT\n".toList = ' ' :: ':' :: "\nSTRUCT\n".toList := by decide
  have hend : "END_STRUCT\nEND_TYPE\n".toList =
      "END_STRUCT".toList ++ '\n' :: (endWord ++ ['\n']) := by decide
  unfold declareType typeBody
  simp only [String.toList_append, hhead, hend, List.append_assoc, List.cons_append,
    List.nil_append, -String.reduceToList]

section TypeBody

variable {dialect : Dialect} {indent : String} {members : List Member} {tail : List Char}

/-- The members of a type declaration read back if nothing behind its end declares any. -/
theorem Conforms.readMembers_typeBody (h : dialect.Conforms)
    (hindent : ∀ c ∈ indent.toList, isBlank c = true)
    (hmembers : ∀ member ∈ members, dialect.CanDeclare member)
    (htail : Declaration.all tail = []) :
    dialect.readMembers (dialect.typeBody indent members tail) = .ok (members.map folded) := by
  have hlines : Declaration.all [] = [] ∧ Declaration.all "STRUCT".toList = [] ∧
      Declaration.all "END_STRUCT".toList = [] ∧ Declaration.all endWord = [] := by decide
  have hend : Declaration.all ("END_STRUCT".toList ++ '\n' :: (endWord ++ '\n' :: tail)) = [] := by
    rw [Declaration.all_append_lineFeed, Declaration.all_append_lineFeed, hlines.2.2.1,
      hlines.2.2.2, htail]
    rfl
  have hrest := h.readMembers_declareAll hindent hmembers hend
  have hsplit : dialect.typeBody indent members tail = [] ++ '\n' :: ("STRUCT".toList ++ '\n' ::
      ((dialect.declareAll indent members).toList ++
        ("END_STRUCT".toList ++ '\n' :: (endWord ++ '\n' :: tail)))) := rfl
  rw [readMembers] at hrest ⊢
  rw [hsplit, Declaration.all_append_lineFeed, Declaration.all_append_lineFeed, hlines.1,
    hlines.2.1]
  exact hrest

/-- The end of a type declaration is the one that was written unless a text of a member looks like
it. -/
theorem Conforms.afterEnd?_typeBody (h : dialect.Conforms)
    (hindent : ∀ c ∈ indent.toList, isBlank c = true)
    (hopen : ∀ member ∈ members, LeavesOpen member) (tail : List Char) :
    afterEnd? (dialect.typeBody indent members tail) = some ('\n' :: tail) := by
  have hstruct : ¬StandsAlone endWord "END_STRUCT".toList := by decide
  have hstart : ¬StandsAlone endWord "\nSTRUCT".toList := by decide
  have hmembers := h.not_standsAlone_declareAll hindent hopen hstruct
  have hsplit : dialect.typeBody indent members tail = ("\nSTRUCT".toList ++ '\n' ::
      ((dialect.declareAll indent members).toList ++ "END_STRUCT".toList)) ++
        '\n' :: (endWord ++ '\n' :: tail) := by
    have hhead : "\nSTRUCT\n".toList = "\nSTRUCT".toList ++ ['\n'] := by decide
    unfold typeBody
    simp only [hhead, List.append_assoc, List.cons_append, List.nil_append, -String.reduceToList]
  have hbreak : startsOutsideWord ('\n' :: tail) = true := by
    rw [startsOutsideWord]
    decide
  rw [hsplit]
  exact afterEnd?_append (not_standsAlone_append_cons hstart hmembers (by decide)) hbreak

end TypeBody

end Dialect

end PlcTypes.StructuredText
