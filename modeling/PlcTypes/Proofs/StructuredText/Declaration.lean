import PlcTypes.Proofs.StructuredText.Comment
import PlcTypes.Proofs.StructuredText.Dialect
import PlcTypes.StructuredText.Declaration

/-!
# Declarations read back

A member that can be declared is read back from its line: the identifier ends at the blank in
front of the colon, the type at the next colon or semicolon, and the initial value at its
closing quote or at the next semicolon. Everything behind is the comment. A text is read line by
line, so what stands on other lines makes no difference as long as it declares nothing.
-/

namespace PlcTypes.StructuredText

open Text Number

/-- Nothing is dropped from a line without a carriage return. -/
theorem dropReturn_of_notMem {text : List Char} (h : '\r' ∉ text) : dropReturn text = text := by
  fun_induction dropReturn text with
  | case1 => rfl
  | case2 => simp at h
  | case3 c rest hreturn ih => rw [ih (by simp_all)]

/-- Only a carriage return is dropped as a whole. -/
theorem dropReturn_eq_nil_iff {text : List Char} :
    dropReturn text = [] ↔ text = [] ∨ text = ['\r'] := by
  fun_cases dropReturn text <;> simp_all

/-- A carriage return is only dropped at the end of what follows. -/
theorem dropReturn_append {run : List Char} (tail : List Char)
    (hlast : ∀ c ∈ run.getLast?, c ≠ '\r') : dropReturn (run ++ tail) = run ++ dropReturn tail := by
  induction run with
  | nil => rfl
  | cons c run ih =>
    have hcons : run ++ tail ≠ [] ∨ c ≠ '\r' := by
      cases run with
      | nil => exact Or.inr (hlast c rfl)
      | cons d run => exact Or.inl (List.cons_ne_nil _ _)
    have hlast' : ∀ d ∈ run.getLast?, d ≠ '\r' := by
      intro d hd
      exact hlast d (by rw [List.getLast?_cons, hd]; rfl)
    rw [List.cons_append, dropReturn, ih hlast', List.cons_append]
    rintro rfl hnil
    exact hcons.elim (fun hne => hne hnil) fun hne => hne rfl

/-- What is dropped is nothing or a carriage return. -/
theorem exists_dropReturn_append (text : List Char) :
    ∃ tail, text = dropReturn text ++ tail ∧ dropReturn tail = [] := by
  fun_induction dropReturn text with
  | case1 => exact ⟨[], rfl, rfl⟩
  | case2 => exact ⟨['\r'], rfl, rfl⟩
  | case3 c rest hreturn ih =>
    obtain ⟨tail, htail, hnil⟩ := ih
    exact ⟨tail, by rw [List.cons_append, ← htail], hnil⟩

/-- A line comment of a trimmed text is read back. -/
theorem description?_lineComment {text : List Char} (htrim : IsTrimmed text) (hreturn : '\r' ∉ text) :
    description? (' ' :: '/' :: '/' :: ' ' :: text) = some text := by
  have hcomment : '\r' ∉ ' ' :: text := by simp [hreturn]
  rw [description?, List.dropWhile_cons_of_pos (by decide), List.dropWhile_cons_of_neg (by decide)]
  simp only [dropReturn_of_notMem hcomment, if_neg hcomment, htrim.trim_space]

/-- The part for the comment: nothing, or a line comment with the description on one line. -/
theorem toList_commentPart (member : Member) :
    (Dialect.commentPart member).toList = [] ∧ foldLine member.description.toList = [] ∨
      (Dialect.commentPart member).toList =
        ' ' :: '/' :: '/' :: ' ' :: foldLine member.description.toList := by
  rw [Dialect.commentPart]
  split
  · rename_i hempty
    rw [String.isEmpty_iff.mp hempty]
    exact Or.inl ⟨rfl, rfl⟩
  · exact Or.inr (by simp [oneLine, String.toList_append])

/-- The comment of a declaration is read back as the description on one line. -/
theorem description?_commentPart (member : Member) :
    description? (Dialect.commentPart member).toList = some (foldLine member.description.toList) := by
  rcases toList_commentPart member with ⟨hnone, hempty⟩ | hcomment
  · rw [hnone, hempty]
    rfl
  · rw [hcomment]
    exact description?_lineComment (isTrimmed_foldLine _) (return_notMem_foldLine _)

/-- What follows a semicolon is the description. -/
theorem closed?_semicolon (tail : List Char) : closed? (';' :: tail) = description? tail := by
  rw [closed?, List.dropWhile_cons_of_neg (by decide), after?, if_pos (by decide), after?,
    Option.bind_some]

section Initial

variable {tail description : List Char}

/-- A quoted initial value is read up to its closing quote. -/
theorem initial?_quote (text : List Char) (h : description? tail = some description) :
    initial? (' ' :: (quote text ++ ';' :: tail)) = some (quote text, description) := by
  have hquote : quote text ++ ';' :: tail = '\'' :: (text.flatMap escape ++ '\'' :: ';' :: tail) := by
    simp [quote]
  rw [initial?, List.dropWhile_cons_of_pos (by decide), hquote,
    List.dropWhile_cons_of_neg (by decide), quotedInitial?, takeQuoted?_escaped]
  simp only [Option.bind_some, closed?_semicolon, h, Option.map_some]
  rfl

/-- A bare initial value is read up to the semicolon. -/
theorem initial?_bare {token : List Char} (htoken : IsBareToken token)
    (h : description? tail = some description) :
    initial? (' ' :: (token ++ ';' :: tail)) = some (token, description) := by
  obtain ⟨c, rest, rfl⟩ := List.exists_cons_of_ne_nil htoken.nonempty
  have hblank : isBlank c = false :=
    isBlank_of_isSpace_eq_false (((isTrimmed_iff _).mp htoken.trimmed).1 c rfl)
  have hpart : ∀ d ∈ c :: rest, (d != ';' && d != '\r') = true := by
    intro d hd
    simpa using ⟨(htoken.plain d hd).1, (htoken.plain d hd).2.1⟩
  have hquoted : quotedInitial? (c :: (rest ++ ';' :: tail)) = none := by
    rw [quotedInitial?]
    intro text heq
    exact htoken.unquoted (by rw [(List.cons.inj heq).1, List.head?_cons])
  have hbare : bareInitial? (c :: rest ++ ';' :: tail) = some (c :: rest, description) := by
    have htrim : trim (c :: rest) = c :: rest := htoken.trimmed
    have htake : (c :: rest ++ ';' :: tail).takeWhile (fun d => d != ';' && d != '\r') = c :: rest :=
      takeWhile_append_cons tail hpart (by decide)
    have hdrop : (c :: rest ++ ';' :: tail).dropWhile (fun d => d != ';' && d != '\r') = ';' :: tail :=
      dropWhile_append_cons tail hpart (by decide)
    simp only [bareInitial?, htake, hdrop, htrim, closed?_semicolon, h, Option.map_some]
  rw [initial?, List.dropWhile_cons_of_pos (by decide), List.cons_append,
    List.dropWhile_cons_of_neg (by simp [hblank]), hquoted, ← List.cons_append, hbare]
  rfl

end Initial

namespace Declaration

section Line

variable {indent name type : List Char}

/-- The identifier and the colon of a declaration are passed. -/
theorem ofLine?_eq (hindent : ∀ c ∈ indent, isBlank c = true) (hname : isIdentifier name = true)
    (text : List Char) :
    ofLine? (indent ++ (name ++ ' ' :: ':' :: text)) =
      match text.takeWhile isTypeChar, text.dropWhile isTypeChar with
      | [], _ => none
      | type, ';' :: tail =>
        (description? tail).map fun description => ⟨name, type, none, description⟩
      | type, ':' :: '=' :: tail =>
        (initial? tail).map fun (initial, description) =>
          ⟨name, type, if initial = [] then none else some initial, description⟩
      | _, _ => none := by
  have hblank : (indent ++ (name ++ ' ' :: ':' :: text)).dropWhile isBlank =
      name ++ ' ' :: ':' :: text := by
    rw [List.dropWhile_append_of_pos hindent]
    cases name with
    | nil => simp [isIdentifier] at hname
    | cons c rest =>
      have hspace := isSpace_of_isNameChar (isNameChar_of_mem hname List.mem_cons_self)
      rw [List.cons_append, List.dropWhile_cons_of_neg (by simp [isBlank_of_isSpace_eq_false hspace])]
  simp only [ofLine?, bind, hblank, takeIdentifier?_append (':' :: text) hname
    (show isNameChar ' ' = false by decide), Option.bind_some]
  rw [List.dropWhile_cons_of_pos (by decide), List.dropWhile_cons_of_neg (by decide), after?,
    if_pos (by decide), after?]
  rfl

/-- A declaration without an initial value ends its type at the semicolon. -/
theorem ofLine?_semicolon {tail description : List Char} (hindent : ∀ c ∈ indent, isBlank c = true)
    (hname : isIdentifier name = true) (htype : ∀ c ∈ type, isTypeChar c = true) (hne : type ≠ [])
    (htail : description? tail = some description) :
    ofLine? (indent ++ (name ++ ' ' :: ':' :: (type ++ ';' :: tail))) =
      some ⟨name, type, none, description⟩ := by
  obtain ⟨c, rest, rfl⟩ := List.exists_cons_of_ne_nil hne
  rw [ofLine?_eq hindent hname, takeWhile_append_cons tail htype (by decide),
    dropWhile_append_cons tail htype (by decide)]
  simp only [htail, Option.map_some]

/-- A declaration with an initial value ends its type at the second colon. -/
theorem ofLine?_assign {tail initial description : List Char}
    (hindent : ∀ c ∈ indent, isBlank c = true) (hname : isIdentifier name = true)
    (htype : ∀ c ∈ type, isTypeChar c = true) (hne : type ≠ [])
    (htail : initial? tail = some (initial, description)) (hinitial : initial ≠ []) :
    ofLine? (indent ++ (name ++ ' ' :: ':' :: (type ++ ':' :: '=' :: tail))) =
      some ⟨name, type, some initial, description⟩ := by
  obtain ⟨c, rest, rfl⟩ := List.exists_cons_of_ne_nil hne
  rw [ofLine?_eq hindent hname, takeWhile_append_cons ('=' :: tail) htype (by decide),
    dropWhile_append_cons ('=' :: tail) htype (by decide)]
  simp only [htail, Option.map_some, if_neg hinitial]

end Line

/-- The declarations of a text with a line feed are those before and those behind it. -/
theorem all_append_lineFeed (text rest : List Char) :
    all (text ++ '\n' :: rest) = all text ++ all rest := by
  rw [all, lines_append_lineFeed, List.filterMap_append]
  rfl

/-- A text on one line has the declaration of the line. -/
theorem all_of_oneLine {text : List Char} (h : '\n' ∉ text) : all text = (ofLine? text).toList := by
  rw [all, lines_of_notMem h, List.filterMap_cons]
  cases ofLine? text <;> rfl

/-- A line that starts with a character of no identifier declares nothing. -/
theorem ofLine?_cons_eq_none {c : Char} (rest : List Char) (hblank : isBlank c = false)
    (hc : isNameStart c = false) : ofLine? (c :: rest) = none := by
  rw [ofLine?, List.dropWhile_cons_of_neg (by simp [hblank]), takeIdentifier?, if_neg (by simp [hc])]
  rfl

/-- A comment on a line of its own declares nothing. -/
theorem all_comment {c : Char} {rest : List Char} (hfeed : '\n' ∉ c :: rest)
    (hblank : isBlank c = false) (hc : isNameStart c = false) :
    all ('\n' :: (c :: rest ++ ['\n'])) = [] := by
  rw [← List.nil_append ('\n' :: _), all_append_lineFeed, all_append_lineFeed, all_of_oneLine hfeed,
    ofLine?_cons_eq_none rest hblank hc]
  rfl

end Declaration

/-- The member with its description on one line. -/
def folded (member : Member) : Member := { member with description := oneLine member.description }

namespace Dialect

variable {dialect : Dialect} {member : Member}

/-- The parts of a declaration in their order. -/
theorem toList_declare (dialect : Dialect) (member : Member) :
    (dialect.declare member).toList = member.name.toList ++ ' ' :: ':' ::
      (' ' :: (dialect.writeType member.type).toList ++ ((dialect.initialPart member).toList ++
        ';' :: (commentPart member).toList)) := by
  simp [declare, String.toList_append]

/-- The part for an initial value. -/
theorem toList_initialPart {value : Literal} (h : member.initial = some value) :
    (dialect.initialPart member).toList =
      ' ' :: ':' :: '=' :: ' ' :: (dialect.writeInitial member.type value).toList := by
  simp [initialPart, h, String.toList_append]

/-- A written type ends at the next colon or semicolon and stays on its line if its name does. -/
theorem Conforms.forall_mem_writeType (h : dialect.Conforms) {type : DataType}
    (hname : type.NameSatisfies fun name => ∀ c ∈ name.toList, isTypeChar c = true ∧ c ≠ '\n') :
    ∀ c ∈ (dialect.writeType type).toList, isTypeChar c = true ∧ c ≠ '\n' := by
  refine DataType.forall_mem_spellWith (p := fun c => isTypeChar c = true ∧ c ≠ '\n') h.isNotation
    ?_ hname
  intro c hc
  simp only [isTypeChar, Bool.and_eq_true, bne_iff_ne]
  have hne {d : Char} (hd : d.isAlphanum = false) (hsign : d ∉ ['[', ']', '.', '-', ' ']) :
      c ≠ d := by
    rintro rfl
    rcases hc with halphanum | hmem
    · simp [hd] at halphanum
    · exact hsign hmem
  exact ⟨⟨⟨hne (by decide) (by decide), hne (by decide) (by decide)⟩, hne (by decide) (by decide)⟩,
    hne (by decide) (by decide)⟩

/-- A member whose declaration can be read: the type it is written with is on the line and stands for
its type, and the initial value can stand behind it. -/
structure CanDeclare (dialect : Dialect) (member : Member) : Prop where
  built : member.IsBuilt
  name : isIdentifier member.name.toList = true
  type : dialect.readType (dialect.writeType member.type).toList = .ok member.type
  typeChars : ∀ c ∈ (dialect.writeType member.type).toList, isTypeChar c = true ∧ c ≠ '\n'
  initial : ∀ value ∈ member.initial, value.IsDeclarable member.type

/-- A member that can be declared on a line can be in any dialect. -/
theorem Conforms.canDeclare (h : dialect.Conforms) (hmember : member.IsDeclarable) :
    dialect.CanDeclare member where
  built := hmember.built
  name := hmember.name
  type := h.readType_writeType hmember.ordered hmember.typeName
  typeChars := by
    refine h.forall_mem_writeType (hmember.typeName.imp fun name hname c hc => ?_)
    obtain ⟨hsemicolon, hcolon, hreturn, hfeed⟩ := hname.plain c hc
    simp [isTypeChar, hsemicolon, hcolon, hreturn, hfeed]
  initial := hmember.initial

/-- The initial value that is written for a member is read up to the semicolon, as it was. -/
theorem Conforms.initial?_writeInitial (h : dialect.Conforms) (hmember : dialect.CanDeclare member)
    {value : Literal} (hinitial : member.initial = some value) {tail description : List Char}
    (htail : description? tail = some description) :
    ∃ token, initial? (' ' :: ((dialect.writeInitial member.type value).toList ++ ';' :: tail)) =
        some (token, description) ∧ token ≠ [] ∧ readInitial token = value := by
  obtain ⟨hfixed, hkeep⟩ := (Member.isBuilt_iff member).mp hmember.built value hinitial
  rcases h.writeInitial_cases hfixed hkeep (hmember.initial value hinitial) with
    ⟨text, hquote, hvalue⟩ | ⟨hbare, hvalue⟩
  · rw [hquote]
    exact ⟨_, initial?_quote text htail, by simp [quote], by rw [readInitial_quote, hvalue]⟩
  · exact ⟨_, initial?_bare hbare htail, hbare.nonempty, by rw [readInitial_bare hbare, hvalue]⟩

/-- The declaration of a member reads back from its line, with the description on one line. -/
theorem Conforms.readDeclaration_declare (h : dialect.Conforms) {indent : List Char}
    (hindent : ∀ c ∈ indent, isBlank c = true) (hmember : dialect.CanDeclare member) :
    ∃ declaration, Declaration.ofLine? (indent ++ (dialect.declare member).toList) = some declaration ∧
      dialect.readDeclaration declaration = .ok (folded member) := by
  have hchars := fun c hc => (hmember.typeChars c hc).1
  have htype := hmember.type
  generalize hspelling : (dialect.writeType member.type).toList = spelling at hchars htype
  have hread {text : List Char} (htext : trim text = trim spelling) :
      dialect.readType text = .ok member.type := by
    rw [← htype]
    exact DataType.decodeWith_congr_trim htext
  have hbefore : trim (' ' :: spelling) = trim spelling := by
    rw [← List.singleton_append, trim_append_left _ (by decide)]
  have hline : ∀ c ∈ ' ' :: spelling, isTypeChar c = true :=
    List.forall_mem_cons.mpr ⟨by decide, hchars⟩
  have hcomment := description?_commentPart member
  have hbuilt := hmember.built.of_initial (oneLine member.description)
  rw [toList_declare, hspelling, folded]
  cases hinitial : member.initial with
  | none =>
    have hpart : (dialect.initialPart member).toList = [] := by simp [initialPart, hinitial]
    refine ⟨⟨member.name.toList, ' ' :: spelling, none, foldLine member.description.toList⟩, ?_, ?_⟩
    · rw [hpart, List.nil_append]
      exact Declaration.ofLine?_semicolon hindent hmember.name hline (by simp) hcomment
    · simp only [readDeclaration, hread hbefore, Option.map_none, String.ofList_toList]
      rw [hinitial] at hbuilt
      exact congrArg Except.ok hbuilt
  | some value =>
    have hblank : ∀ c ∈ ' ' :: spelling ++ [' '], isTypeChar c = true :=
      List.forall_mem_append.mpr ⟨hline, by decide⟩
    have hafter : trim (' ' :: spelling ++ [' ']) = trim spelling := by
      rw [trim_append_right _ (by decide), hbefore]
    have hsplit : ' ' :: spelling ++ ((dialect.initialPart member).toList ++
        ';' :: (commentPart member).toList) = ' ' :: spelling ++ [' '] ++ ':' :: '=' ::
          (' ' :: ((dialect.writeInitial member.type value).toList ++
            ';' :: (commentPart member).toList)) := by
      rw [toList_initialPart hinitial]
      simp
    rw [hsplit]
    obtain ⟨token, hscan, hne, hvalue⟩ := h.initial?_writeInitial hmember hinitial hcomment
    refine ⟨_, Declaration.ofLine?_assign hindent hmember.name hblank (by simp) hscan hne, ?_⟩
    simp only [readDeclaration, hread hafter, Option.map_some, hvalue, String.ofList_toList]
    rw [hinitial] at hbuilt
    exact congrArg Except.ok hbuilt

end Dialect

end PlcTypes.StructuredText
