import PlcTypes.Proofs.Format.RockwellOutline
import PlcTypes.Proofs.Text.Locality

/-!
# A member of a Rockwell export in its file

Everything in an export is recognised up to an end that the recognised text brings along, so nothing
before a member depends on it. Two files that are the same around one of their members are read the
same but for this member. The attributes of a member matter only in their last values.
-/

namespace PlcTypes

namespace Text

/-- White space in front of a text starts it. -/
theorem startsWithSpace_append {blanks : List Char} (text : List Char) (hne : blanks ≠ [])
    (hblanks : ∀ c ∈ blanks, isSpace c = true) : startsWithSpace (blanks ++ text) = true := by
  obtain ⟨c, others, rfl⟩ := List.exists_cons_of_ne_nil hne
  exact hblanks c List.mem_cons_self

/-- A text that starts with white space has some in front. -/
theorem takeWhile_isSpace_ne_nil {text : List Char} (h : startsWithSpace text = true) :
    text.takeWhile isSpace ≠ [] := by
  cases text with
  | nil => exact absurd h (by decide)
  | cons c text =>
    have hc : isSpace c = true := h
    rw [List.takeWhile_cons_of_pos hc]
    exact List.cons_ne_nil _ _

end Text

open Text

namespace Markup

variable {name : String}

/-- The head of an element stands between white space and its closing angle bracket. -/
theorem takeElement?_of_blanks (name : String) {blanks head : List Char} (rest : List Char)
    (hne : blanks ≠ []) (hblanks : ∀ c ∈ blanks, isSpace c = true)
    (hfirst : ∀ c ∈ head.head?, isSpace c = false) (hhead : '>' ∉ head) :
    takeElement? name (tagStart name ++ (blanks ++ (head ++ '>' :: rest))) =
      if head.getLast? = some '/' then some (⟨head.dropLast, none⟩, rest)
      else (cut? (closeTag name) rest).map fun (body, rest) => (⟨head, some body⟩, rest) := by
  have hdrop : (blanks ++ (head ++ '>' :: rest)).dropWhile isSpace = head ++ '>' :: rest := by
    rw [List.dropWhile_append_of_pos hblanks]
    cases head with
    | nil => exact List.dropWhile_cons_of_neg (by decide)
    | cons c head => exact List.dropWhile_cons_of_neg (by simp [hfirst c rfl])
  have hrun : ∀ c ∈ head, (c != '>') = true := by
    intro c hc
    rw [bne_iff_ne]
    exact fun heq => hhead (heq ▸ hc)
  rw [takeElement?]
  change (after? (tagStart name) _).bind _ = _
  rw [after?_append, Option.bind_some, if_pos (startsWithSpace_append _ hne hblanks)]
  simp only [hdrop, takeWhile_append_cons rest hrun (show ('>' != '>') = false by decide),
    dropWhile_append_cons rest hrun (show ('>' != '>') = false by decide)]
  rfl

/-- What is taken for an element has a head between white space and an angle bracket. -/
theorem exists_of_takeElement? {text rest : List Char} {found : Element}
    (h : takeElement? name text = some (found, rest)) :
    ∃ blanks head behind, text = tagStart name ++ (blanks ++ (head ++ '>' :: behind)) ∧ blanks ≠ [] ∧
      (∀ c ∈ blanks, isSpace c = true) ∧ (∀ c ∈ head.head?, isSpace c = false) ∧ '>' ∉ head := by
  rw [takeElement?] at h
  obtain ⟨tail, hstart, h⟩ := Option.bind_eq_some_iff.mp h
  split at h
  · rename_i hspace
    split at h
    · simp at h
    · rename_i c behind hbehind
      obtain rfl : c = '>' := by
        have := List.head?_dropWhile_not (· != '>') (tail.dropWhile isSpace)
        simpa [hbehind] using this
      have hdrop : tail.dropWhile isSpace =
          (tail.dropWhile isSpace).takeWhile (· != '>') ++ '>' :: behind := by
        rw [← hbehind, List.takeWhile_append_dropWhile]
      refine ⟨tail.takeWhile isSpace, (tail.dropWhile isSpace).takeWhile (· != '>'), behind,
        ?_, ?_, ?_, ?_, ?_⟩
      · rw [← hdrop, List.takeWhile_append_dropWhile]
        exact after?_eq_some_iff.mp hstart
      · exact takeWhile_isSpace_ne_nil hspace
      · exact fun c hc => List.mem_takeWhile_imp hc
      · intro c hc
        have hfirst : (tail.dropWhile isSpace).head? = some c := by
          rw [hdrop, List.head?_append, Option.mem_def.mp hc, Option.some_or]
        exact head_dropWhile hfirst
      · exact fun hmem => absurd (List.mem_takeWhile_imp hmem) (by decide)
  · simp at h

/-- An element is recognised up to an end that it brings along. -/
theorem isLocal_takeElement? (name : String) : IsLocal (takeElement? name) := by
  intro text found rest h
  obtain ⟨blanks, head, behind, rfl, hne, hblanks, hfirst, hhead⟩ := exists_of_takeElement? h
  rw [takeElement?_of_blanks name behind hne hblanks hfirst hhead] at h
  have htag : blanks ++ (head ++ ['>']) ≠ [] := by simp
  split at h
  · rename_i hslash
    obtain ⟨rfl, rfl⟩ := Prod.mk.inj (Option.some.inj h)
    refine ⟨tagStart name ++ (blanks ++ (head ++ ['>'])),
      List.append_ne_nil_of_right_ne_nil _ htag, by simp, fun rest' => ?_⟩
    have := takeElement?_of_blanks name rest' hne hblanks hfirst hhead
    rw [if_pos hslash] at this
    simpa using this
  · rename_i hslash
    obtain ⟨⟨body, tail⟩, hcut, heq⟩ := Option.map_eq_some_iff.mp h
    obtain ⟨rfl, rfl⟩ := Prod.mk.inj heq
    obtain rfl := eq_of_cut? hcut
    refine ⟨tagStart name ++ (blanks ++ (head ++ '>' :: (body ++ closeTag name))),
      List.append_ne_nil_of_right_ne_nil _ (by simp), by simp, fun rest' => ?_⟩
    have := takeElement?_of_blanks name (body ++ (closeTag name ++ rest')) hne hblanks hfirst hhead
    rw [if_neg hslash, cut?_of_cut?_append rest' (closeTag_ne_nil name) hcut] at this
    simpa using this

end Markup

namespace Rockwell

open Markup

/-- The head of a data type is its name behind white space, in front of anything up to an angle
bracket. -/
theorem head?_of_parts {blanks name others : List Char} (rest : List Char) (hne : blanks ≠ [])
    (hblanks : ∀ c ∈ blanks, isSpace c = true) (hname : '"' ∉ name) (hothers : '>' ∉ others) :
    head? ("<DataType".toList ++
      (blanks ++ ("Name=\"".toList ++ (name ++ '"' :: (others ++ '>' :: rest))))) =
      some (unescape name, rest) := by
  have hdrop (text : List Char) :
      (blanks ++ ("Name=\"".toList ++ text)).dropWhile isSpace = "Name=\"".toList ++ text := by
    rw [List.dropWhile_append_of_pos hblanks]
    exact List.dropWhile_cons_of_neg (show ¬isSpace 'N' = true by decide)
  rw [head?]
  simp only [bind]
  rw [after?_append, Option.bind_some, if_pos (startsWithSpace_append _ hne hblanks), hdrop,
    after?_append, Option.bind_some, cut?_singleton _ hname, Option.bind_some]
  simp only
  rw [cut?_singleton _ hothers, Option.bind_some]

/-- The head of a data type is recognised up to an end that it brings along. -/
theorem isLocal_head? : IsLocal head? := by
  intro text found rest h
  simp only [head?, bind, Option.bind_eq_some_iff] at h
  obtain ⟨tail, hstart, h⟩ := h
  split at h
  · rename_i hspace
    simp only [Option.bind_eq_some_iff] at h
    obtain ⟨inside, hinside, ⟨name, behind⟩, hname, ⟨others, rest'⟩, hothers, h⟩ := h
    obtain ⟨rfl, rfl⟩ := Prod.mk.inj (Option.some.inj h)
    have htext : text = "<DataType".toList ++ (tail.takeWhile isSpace ++
        ("Name=\"".toList ++ (name ++ '"' :: (others ++ '>' :: rest')))) := by
      have hinner : inside = name ++ '"' :: (others ++ '>' :: rest') :=
        (eq_of_cut? hname).trans (congrArg (fun text => name ++ '"' :: text) (eq_of_cut? hothers))
      rw [after?_eq_some_iff.mp hstart, ← hinner, ← after?_eq_some_iff.mp hinside,
        List.takeWhile_append_dropWhile]
    refine ⟨"<DataType".toList ++ (tail.takeWhile isSpace ++
      ("Name=\"".toList ++ (name ++ '"' :: (others ++ ['>'])))),
      List.append_ne_nil_of_left_ne_nil (by decide) _, ?_, fun rest' => ?_⟩
    · rw [htext]
      simp only [List.append_assoc, List.cons_append, List.nil_append, -String.reduceToList]
    · have := head?_of_parts rest' (takeWhile_isSpace_ne_nil hspace)
        (fun c hc => List.mem_takeWhile_imp hc) (notMem_of_cut? hname) (notMem_of_cut? hothers)
      simpa only [List.append_assoc, List.cons_append, List.nil_append, -String.reduceToList] using this
  · simp at h

/-- An element of a file: the search for members comes to it and takes it. What stands before it and
behind it is `front` and `rest`. -/
structure IsMemberAt (front tail : List Char) (element : Element) (rest : List Char) : Prop where
  met : ∃ hit, find? (fun _ => head?) none (front ++ tail) = some hit ∧
    Meets (takeElement? "Member") tail hit.rest
  taken : takeElement? "Member" tail = some (element, rest)

variable {front tail tail' rest rest' : List Char} {element element' : Element}

/-- Two files that are the same before one of their members have the same name and description, and the
same members before it. -/
theorem IsMemberAt.exists_parse (h : IsMemberAt front tail element rest)
    (h' : IsMemberAt front tail' element' rest') :
    ∃ (d : Definition) (before : List Element),
      parse (String.ofList (front ++ tail)) =
        ((before ++ element :: findAll (takeElement? "Member") rest).mapM readMember).map (fun members =>
          d.pushAll (members.filterMap id)) ∧
      parse (String.ofList (front ++ tail')) =
        ((before ++ element' :: findAll (takeElement? "Member") rest').mapM readMember).map (fun members =>
          d.pushAll (members.filterMap id)) := by
  obtain ⟨⟨hit, hhit, hmeets⟩, htaken⟩ := h
  obtain ⟨⟨hit', hhit', hmeets'⟩, htaken'⟩ := h'
  have hlocal := isLocal_takeElement? "Member"
  obtain ⟨passed, hpassed⟩ := hmeets.exists_append hlocal
  obtain ⟨passed', hpassed'⟩ := hmeets'.exists_append hlocal
  obtain ⟨hname, rfl⟩ := isLocal_head?.find?_eq hhit hhit' hpassed hpassed'
  rw [hpassed] at hmeets
  rw [hpassed'] at hmeets'
  obtain ⟨before, hbefore, hbefore'⟩ := hmeets.exists_findAll hlocal hmeets'
  have hstart {tail rest : List Char} {element : Element}
      (htaken : takeElement? "Member" tail = some (element, rest)) :
      ∃ behind, tail = "<Member".toList ++ behind := by
    obtain ⟨blanks, head, behind, rfl, -⟩ := exists_of_takeElement? htaken
    exact ⟨_, congrArg (· ++ _) tags_eq.2.2.1⟩
  obtain ⟨behind, rfl⟩ := hstart htaken
  obtain ⟨behind', rfl⟩ := hstart htaken'
  obtain ⟨first, hfirst⟩ := exists_cut?_append "<Member".toList passed (by decide)
  refine ⟨Definition.bare (String.ofList hit.found)
    (String.ofList ((firstElement? "Description" first).getD [])), before, ?_, ?_⟩
  · rw [parse, String.toList_ofList, hhit]
    simp only [beforeMembers, hpassed, hfirst, Option.getD_some, hbefore,
      findAll_of_accept hlocal.advances htaken]
  · rw [parse, String.toList_ofList, hhit']
    simp only [beforeMembers, hpassed', hfirst, Option.getD_some, hbefore', hname,
      findAll_of_accept hlocal.advances htaken']

/-- The value of the last attribute of a key. -/
def lastValue? (key : String) (list : List (List Char × List Char)) : Option (List Char) :=
  (list.findRev? fun entry => entry.1 == key.toList).map Prod.snd

/-- An attribute counts if none of its key comes later. -/
theorem lastValue?_cons (key : String) (name value : List Char) (others : List (List Char × List Char)) :
    lastValue? key ((name, value) :: others) =
      (lastValue? key others).or (if name = key.toList then some value else none) := by
  rw [lastValue?, lastValue?, List.findRev?]
  cases others.findRev? fun entry => entry.1 == key.toList with
  | some entry => rfl
  | none =>
    by_cases hname : name = key.toList
    · simp [hname]
    · simp [hname]

/-- An attribute replaces what it is the key of. -/
theorem MemberHead.take_eq (head : MemberHead) (key value : List Char) : head.take (key, value) =
    ⟨if key = "Name".toList then some value else head.name,
      if key = "DataType".toList then some value else head.type,
      if key = "Dimension".toList then firstDimension value else head.dimension,
      if key = "Hidden".toList then sameIgnoringCase value "true".toList else head.hidden⟩ := by
  by_cases hname : key = "Name".toList
  · subst hname
    rfl
  by_cases htype : key = "DataType".toList
  · subst htype
    rfl
  by_cases hdimension : key = "Dimension".toList
  · subst hdimension
    rfl
  by_cases hhidden : key = "Hidden".toList
  · subst hhidden
    rfl
  simp only [MemberHead.take, if_neg hname, if_neg htype, if_neg hdimension, if_neg hhidden,
    -String.reduceToList]

/-- What comes last counts, and what comes before it stands in for it. -/
theorem getD_map_or {α β : Type} (f : α → β) (last : Option α) (p : Prop) [Decidable p] (first : α)
    (default : β) : ((last.or (if p then some first else none)).map f).getD default =
      (last.map f).getD (if p then f first else default) := by
  cases last with
  | some value => rfl
  | none => by_cases hp : p <;> simp [hp]

/-- The attributes of a member are taken in order, so the last value of each key counts. -/
theorem MemberHead.foldl_take (list : List (List Char × List Char)) (head : MemberHead) :
    list.foldl MemberHead.take head =
      ⟨((lastValue? "Name" list).map some).getD head.name,
        ((lastValue? "DataType" list).map some).getD head.type,
        ((lastValue? "Dimension" list).map firstDimension).getD head.dimension,
        ((lastValue? "Hidden" list).map (sameIgnoringCase · "true".toList)).getD head.hidden⟩ := by
  induction list generalizing head with
  | nil => rfl
  | cons entry others ih =>
    obtain ⟨key, value⟩ := entry
    rw [List.foldl_cons, ih, MemberHead.take_eq]
    simp only [lastValue?_cons, getD_map_or, -String.reduceToList]

/-- The last values of the keys are what the attributes of a member say. -/
theorem MemberHead.of_eq (text : List Char) : MemberHead.of text =
    ⟨lastValue? "Name" (attributes text), lastValue? "DataType" (attributes text),
      ((lastValue? "Dimension" (attributes text)).map firstDimension).getD 0,
      ((lastValue? "Hidden" (attributes text)).map (sameIgnoringCase · "true".toList)).getD false⟩ := by
  have hsome (value : Option (List Char)) : (value.map some).getD none = value := by
    cases value <;> rfl
  rw [MemberHead.of, MemberHead.foldl_take]
  simp only [hsome]

end Rockwell

end PlcTypes
