import PlcTypes.Format.Markup
import PlcTypes.Proofs.Text.Ascii

/-!
# Markup read back

An escaped attribute value has none of the characters that could end it or its element, and
escaping is undone. A text in character data is spread over sections, none of which holds the end
of a section, and joining them gives the text. Splitting a text brings in no markup that starts
with an angle bracket of its own, except the sections themselves.
-/

namespace PlcTypes.Markup

open Text

/-- A character that starts no entity stays. -/
theorem unescape_cons {c : Char} (rest : List Char) (h : c ≠ '&') :
    unescape (c :: rest) = c :: unescape rest := by
  rw [unescape] <;> simp [h]

/-- A text without an ampersand stays. -/
theorem unescape_of_notMem {text : List Char} (h : '&' ∉ text) : unescape text = text := by
  induction text with
  | nil => rfl
  | cons c text ih =>
    rw [List.mem_cons, not_or] at h
    rw [unescape_cons text (Ne.symm h.1), ih h.2]

/-- An escaped character is read back. -/
theorem unescape_escapeChar (c : Char) (rest : List Char) :
    unescape (escapeChar c ++ rest) = c :: unescape rest := by
  rw [escapeChar]
  split_ifs with hamp hlt hgt hquot
  · simp [unescape, hamp]
  · simp [unescape, hlt]
  · simp [unescape, hgt]
  · simp [unescape, hquot]
  · exact unescape_cons rest hamp

/-- An attribute value is read back. -/
theorem unescape_escape (text : List Char) : unescape (escape text) = text := by
  induction text with
  | nil => rfl
  | cons c text ih =>
    change unescape ((c :: text).flatMap escapeChar) = c :: text
    rw [List.flatMap_cons, unescape_escapeChar]
    exact congrArg (c :: ·) ih

/-- An attribute value has neither angle brackets nor quotes. -/
theorem notMem_escape (text : List Char) {c : Char} (hc : c ∈ ['<', '>', '"']) :
    c ∉ escape text := by
  have hentity : ∀ d ∈ ['<', '>', '"'], d ∉ "&amp;".toList ∧ d ∉ "&lt;".toList ∧
      d ∉ "&gt;".toList ∧ d ∉ "&quot;".toList := by decide
  obtain ⟨hamp, hlt, hgt, hquot⟩ := hentity c hc
  intro hmem
  obtain ⟨d, -, hd⟩ := List.mem_flatMap.mp hmem
  rw [escapeChar] at hd
  split_ifs at hd with h₁ h₂ h₃ h₄
  · exact hamp hd
  · exact hlt hd
  · exact hgt hd
  · exact hquot hd
  · rw [List.mem_singleton] at hd
    simp only [List.mem_cons, List.not_mem_nil, or_false] at hc
    rcases hc with rfl | rfl | rfl
    · exact h₂ hd.symm
    · exact h₃ hd.symm
    · exact h₄ hd.symm

section Sections

/-- What opens a section, character by character. -/
theorem sectionStart_eq : sectionStart = ['<', '!', '[', 'C', 'D', 'A', 'T', 'A', '['] := by decide

/-- What closes a section, character by character. -/
theorem sectionEnd_eq : sectionEnd = [']', ']', '>'] := by decide

/-- The end of a section is split between two sections. -/
theorem splitSections_end (rest : List Char) : splitSections (']' :: ']' :: '>' :: rest) =
    [']', ']'] ++ (sectionEnd ++ (sectionStart ++ '>' :: splitSections rest)) := by
  have hmarks : "]]]]><![CDATA[>".toList = [']', ']'] ++ (sectionEnd ++ (sectionStart ++ ['>'])) := by
    decide
  change "]]]]><![CDATA[>".toList ++ splitSections rest = _
  rw [hmarks]
  simp only [List.append_assoc, List.singleton_append]

/-- Everything else is kept. -/
theorem splitSections_cons {c : Char} {rest : List Char}
    (h : ∀ tail, c = ']' → rest = ']' :: '>' :: tail → False) :
    splitSections (c :: rest) = c :: splitSections rest := by
  generalize htext : c :: rest = text
  fun_cases splitSections text with
  | case1 tail =>
    obtain ⟨rfl, rfl⟩ := List.cons.inj htext
    exact (h tail rfl rfl).elim
  | case2 d tail hclosed =>
    obtain ⟨rfl, rfl⟩ := List.cons.inj htext
    rfl
  | case3 => simp at htext

/-- A text without closing brackets in front is kept. -/
theorem splitSections_append_of_notMem {left : List Char} (right : List Char) (h : ']' ∉ left) :
    splitSections (left ++ right) = left ++ splitSections right := by
  induction left with
  | nil => rfl
  | cons c left ih =>
    rw [List.mem_cons, not_or] at h
    rw [List.cons_append, splitSections_cons fun _ hc _ => h.1 hc.symm, ih h.2, List.cons_append]

/-- The end of a section does not reach over a character that it does not contain. -/
theorem splitSections_append_cons {c : Char} (left right : List Char) (hc : c ∉ sectionEnd) :
    splitSections (left ++ c :: right) = splitSections left ++ c :: splitSections right := by
  have hbracket : c ≠ ']' := fun heq => hc (heq ▸ by decide)
  have hangle : c ≠ '>' := fun heq => hc (heq ▸ by decide)
  fun_induction splitSections left with
  | case1 rest ih =>
    change splitSections (']' :: ']' :: '>' :: (rest ++ c :: right)) = _
    rw [splitSections_end, ih, List.append_assoc]
    rfl
  | case2 d rest hclosed ih =>
    have hopen : ∀ tail, d = ']' → rest ++ c :: right = ']' :: '>' :: tail → False := by
      intro tail hd hrest
      match rest, hrest with
      | [], hrest => exact hbracket (List.cons.inj hrest).1
      | [e], hrest => exact hangle (List.cons.inj (List.cons.inj hrest).2).1
      | e :: f :: rest, hrest =>
        obtain ⟨he, hrest⟩ := List.cons.inj hrest
        exact hclosed rest hd (by rw [he, (List.cons.inj hrest).1])
    rw [List.cons_append, splitSections_cons hopen, ih, List.cons_append]
  | case3 => exact splitSections_cons fun _ hd _ => hbracket hd

/-- The texts of the sections that a text is spread over. -/
def pieces : List Char → List (List Char)
  | ']' :: ']' :: '>' :: rest =>
    match pieces rest with
    | [] => [[']', ']', '>']]
    | piece :: others => [']', ']'] :: ('>' :: piece) :: others
  | c :: rest =>
    match pieces rest with
    | [] => [[c]]
    | piece :: others => (c :: piece) :: others
  | [] => [[]]

/-- A piece as a section of its own. -/
def wrap (piece : List Char) : List Char := sectionStart ++ (piece ++ sectionEnd)

/-- The pieces of a text give the text, and the first of them starts it. -/
theorem pieces_spec (text : List Char) :
    ∃ piece others, pieces text = piece :: others ∧ piece <+: text ∧
      (pieces text).flatten = text ∧
      splitSections text ++ sectionEnd = piece ++ (sectionEnd ++ others.flatMap wrap) := by
  fun_induction pieces text with
  | case1 rest hnil ih =>
    obtain ⟨piece, others, hpieces, -⟩ := ih
    simp [hnil] at hpieces
  | case2 rest piece others hcons ih =>
    obtain ⟨first, later, hpieces, -, hflatten, hsplit⟩ := ih
    rw [hcons] at hpieces hflatten
    obtain ⟨rfl, rfl⟩ := List.cons.inj hpieces
    refine ⟨_, _, rfl, ⟨'>' :: rest, rfl⟩, ?_, ?_⟩
    · simpa using hflatten
    · rw [splitSections_end]
      simp only [List.append_assoc, List.cons_append, List.nil_append, List.flatMap_cons, wrap, hsplit]
  | case3 c rest hclosed hnil ih =>
    obtain ⟨piece, others, hpieces, -⟩ := ih
    simp [hnil] at hpieces
  | case4 c rest hclosed piece others hcons ih =>
    obtain ⟨first, later, hpieces, hstart, hflatten, hsplit⟩ := ih
    rw [hcons] at hpieces hflatten
    obtain ⟨rfl, rfl⟩ := List.cons.inj hpieces
    refine ⟨_, _, rfl, List.cons_prefix_cons.mpr ⟨rfl, hstart⟩, ?_, ?_⟩
    · simpa using hflatten
    · rw [splitSections_cons hclosed, List.cons_append, hsplit, List.cons_append]
  | case5 => exact ⟨[], [], rfl, List.nil_prefix, rfl, by simp only [List.flatMap_nil]; rfl⟩

/-- No piece holds the end of a section, nor makes one up with brackets behind it. -/
theorem not_occurs_pieces (text : List Char) :
    ∀ piece ∈ pieces text, ¬sectionEnd <:+: piece ++ [']', ']'] := by
  rw [sectionEnd_eq]
  fun_induction pieces text with
  | case1 rest hnil ih =>
    obtain ⟨piece, others, hpieces, -⟩ := pieces_spec rest
    simp [hnil] at hpieces
  | case2 rest first others hcons ih =>
    rw [hcons] at ih
    intro piece h
    rcases List.mem_cons.mp h with rfl | h
    · decide
    · rcases List.mem_cons.mp h with rfl | h
      · rw [List.cons_append, List.infix_cons_iff, not_or]
        exact ⟨by simp, ih first List.mem_cons_self⟩
      · exact ih piece (List.mem_cons_of_mem _ h)
  | case3 c rest hclosed hnil ih =>
    obtain ⟨piece, others, hpieces, -⟩ := pieces_spec rest
    simp [hnil] at hpieces
  | case4 c rest hclosed first others hcons ih =>
    obtain ⟨first', others', hpieces, hstart, -⟩ := pieces_spec rest
    rw [hcons] at hpieces ih
    obtain ⟨rfl, rfl⟩ := List.cons.inj hpieces
    intro piece h
    rcases List.mem_cons.mp h with rfl | h
    · rw [List.cons_append, List.infix_cons_iff, not_or]
      refine ⟨fun hend => ?_, ih first List.mem_cons_self⟩
      -- the piece would have to go on with the rest of the mark, and so would the text
      obtain ⟨rfl, hrest⟩ := List.cons_prefix_cons.mp hend
      match first, hstart, hrest with
      | [], _, hrest => simp at hrest
      | [d], _, hrest => simp at hrest
      | d :: e :: tail, hstart, hrest =>
        obtain ⟨after, hafter⟩ := hstart
        simp only [List.cons_append, List.cons_prefix_cons] at hrest
        obtain ⟨rfl, rfl, -⟩ := hrest
        exact hclosed _ rfl hafter.symm
    · exact ih piece (List.mem_cons_of_mem _ h)
  | case5 =>
    intro piece h
    rw [List.mem_singleton.mp h]
    decide

/-- Everything from a section on is read if its text does not hold the end of a section. -/
theorem section?_wrap {piece : List Char} (rest : List Char)
    (h : ¬sectionEnd <:+: piece ++ [']', ']']) : section? (wrap piece ++ rest) = some (piece, rest) := by
  have hcut : cut? sectionEnd (piece ++ (sectionEnd ++ rest)) = some (piece, rest) :=
    cut?_append rest (by decide) h
  rw [section?, wrap, List.append_assoc, after?_append, Option.bind_some, List.append_assoc, hcut]

/-- Reading a section advances. -/
theorem advances_section? : Advances section? := by
  intro text piece rest h
  obtain ⟨tail, hstart, hcut⟩ := Option.bind_eq_some_iff.mp h
  rw [after?_eq_some_iff.mp hstart, eq_of_cut? hcut, sectionStart_eq]
  simp only [List.length_append, List.length_cons]
  omega

/-- All sections written one behind the other are found. -/
theorem findAll_section? {ps : List (List Char)}
    (h : ∀ piece ∈ ps, ¬sectionEnd <:+: piece ++ [']', ']']) :
    findAll section? (ps.flatMap wrap) = ps := by
  induction ps with
  | nil => rfl
  | cons piece others ih =>
    have hread := section?_wrap (others.flatMap wrap) (h piece List.mem_cons_self)
    rw [List.flatMap_cons, findAll_of_accept advances_section? hread,
      ih fun other hother => h other (List.mem_cons_of_mem _ hother)]

/-- The text of an element in character data is the text that was written, trimmed. -/
theorem elementText_characterData (text : List Char) :
    elementText (characterData text) = trim text := by
  obtain ⟨piece, others, hpieces, -, hflatten, hsplit⟩ := pieces_spec text
  have hsections : characterData text = (pieces text).flatMap wrap := by
    rw [characterData, List.append_assoc, hsplit, hpieces, List.flatMap_cons, wrap]
    simp only [List.append_assoc]
  have hfound : findAll section? (characterData text) = piece :: others := by
    rw [hsections, findAll_section? (not_occurs_pieces text), hpieces]
  rw [hpieces] at hflatten
  rw [elementText, hfound]
  exact congrArg trim hflatten

variable {word : List Char}

/-- A word without brackets in front of a split text is in front of the text. -/
theorem prefix_of_prefix_splitSections {text : List Char} (hword : ']' ∉ word)
    (h : word <+: splitSections text) : word <+: text := by
  induction text generalizing word with
  | nil => exact h
  | cons c text ih =>
    cases word with
    | nil => exact List.nil_prefix
    | cons w word =>
      rw [List.mem_cons, not_or] at hword
      by_cases hclosed : ∃ tail, c = ']' ∧ text = ']' :: '>' :: tail
      · obtain ⟨tail, rfl, rfl⟩ := hclosed
        rw [splitSections_end, List.cons_append, List.cons_prefix_cons] at h
        exact absurd h.1.symm hword.1
      · rw [splitSections_cons fun tail hc htext => hclosed ⟨tail, hc, htext⟩,
          List.cons_prefix_cons] at h
        rw [h.1, List.cons_prefix_cons]
        exact ⟨rfl, ih hword.2 h.2⟩

/-- What stands between the texts of two sections, up to the last bracket. -/
def betweenSections : List Char := "]]]]><![CDATA".toList

/-- A tag that does not occur in a text does not occur in the text split into sections. -/
theorem not_occurs_splitSections {text : List Char} (hhead : word.head? = some '<')
    (hopen : '[' ∉ word) (hclose : ']' ∉ word) (hbetween : ¬word <:+: betweenSections)
    (h : ¬word <:+: text) : ¬word <:+: splitSections text := by
  have hmarks : [']', ']'] ++ (sectionEnd ++ sectionStart) = betweenSections ++ ['['] := by decide
  fun_induction splitSections text with
  | case1 rest ih =>
    have hrest := ih fun hoccurs => h (hoccurs.trans
      ((List.suffix_append [']', ']', '>'] rest).isInfix))
    change ¬word <:+: splitSections (']' :: ']' :: '>' :: rest)
    have hsplit : splitSections (']' :: ']' :: '>' :: rest) =
        betweenSections ++ '[' :: '>' :: splitSections rest := by
      rw [splitSections_end, ← List.append_assoc sectionEnd, ← List.append_assoc [']', ']'], hmarks]
      simp only [List.append_assoc, List.singleton_append]
    rw [hsplit, infix_append_cons_iff hopen, List.infix_cons_iff]
    intro hoccurs
    rcases hoccurs with hoccurs | hoccurs | hoccurs
    · exact hbetween hoccurs
    · obtain ⟨w, tail, rfl⟩ : ∃ w tail, word = w :: tail := by
        cases word with
        | nil => simp at hhead
        | cons w tail => exact ⟨w, tail, rfl⟩
      rw [List.head?_cons, Option.some.injEq] at hhead
      exact absurd ((List.cons_prefix_cons.mp hoccurs).1.symm.trans hhead) (by decide)
    · exact hrest hoccurs
  | case2 c rest hclosed ih =>
    rw [List.infix_cons_iff, not_or] at h ⊢
    refine ⟨fun hstarts => h.1 ?_, ih h.2⟩
    rw [← splitSections_cons hclosed] at hstarts
    exact prefix_of_prefix_splitSections hclose hstarts
  | case3 => exact h

/-- A tag that does not occur in a text does not occur in the text as character data. -/
theorem not_occurs_characterData {text : List Char} (hhead : word.head? = some '<')
    (hopen : '[' ∉ word) (hclose : ']' ∉ word) (hbetween : ¬word <:+: betweenSections)
    (h : ¬word <:+: text) : ¬word <:+: characterData text := by
  have hstart : sectionStart = ['<', '!', '[', 'C', 'D', 'A', 'T', 'A'] ++ ['['] := sectionStart_eq
  rw [characterData, sectionEnd_eq, hstart, List.append_assoc, List.append_assoc,
    List.singleton_append]
  refine not_occurs_between ?_ ?_ ?_ hopen hclose
  · exact fun hoccurs => hbetween (hoccurs.trans (by decide))
  · exact not_occurs_splitSections hhead hopen hclose hbetween h
  · exact fun hoccurs => hbetween (hoccurs.trans (by decide))

end Sections

section Attributes

/-- Reading an attribute advances. -/
theorem advances_attribute? : Advances attribute? := by
  intro text found rest h
  rw [attribute?] at h
  split at h
  · simp at h
  · simp only [bind, Option.bind_eq_some_iff] at h
    obtain ⟨t₁, h₁, t₂, h₂, ⟨value, t₃⟩, h₃, h₄⟩ := h
    simp only [Option.some.injEq, Prod.mk.injEq] at h₄
    have l₁ := length_after? h₁
    have l₂ := length_after? h₂
    have l₃ := congrArg List.length (eq_of_cut? h₃)
    have d₁ := length_dropWhile_le Char.isAlpha text
    have d₂ := length_dropWhile_le isSpace (text.dropWhile Char.isAlpha)
    have d₃ := length_dropWhile_le isSpace t₁
    simp only [List.length_append, List.length_cons, List.length_nil] at l₁ l₂ l₃
    rw [← h₄.2]
    omega

/-- An attribute as it is written. -/
def attributeChars (key value : List Char) : List Char := key ++ '=' :: '"' :: (value ++ ['"'])

variable {key value : List Char}

/-- A written attribute is found, and the search goes on behind it. -/
theorem findAll_attributeChars (rest : List Char) (hne : key ≠ [])
    (hkey : ∀ c ∈ key, c.isAlpha = true) (hvalue : '"' ∉ value) :
    findAll attribute? (attributeChars key value ++ rest) =
      (key, unescape value) :: findAll attribute? rest := by
  apply findAll_of_accept advances_attribute?
  obtain ⟨c, tail, rfl⟩ := List.exists_cons_of_ne_nil hne
  have hsplit : attributeChars (c :: tail) value ++ rest =
      (c :: tail) ++ '=' :: '"' :: (value ++ '"' :: rest) := by
    simp only [attributeChars, List.append_assoc, List.cons_append, List.nil_append]
  rw [hsplit, attribute?, takeWhile_append_cons _ hkey (by decide), dropWhile_append_cons _ hkey (by decide)]
  simp only [bind]
  rw [List.dropWhile_cons_of_neg (by decide), after?, if_pos (by decide), after?, Option.bind_some,
    List.dropWhile_cons_of_neg (by decide), after?, if_pos (by decide), after?, Option.bind_some,
    cut?_singleton rest hvalue, Option.bind_some]

/-- No attribute starts at a space. -/
theorem findAll_attribute?_space (rest : List Char) :
    findAll attribute? (' ' :: rest) = findAll attribute? rest := by
  apply findAll_cons_of_reject
  rw [attribute?, List.takeWhile_cons_of_neg (by decide)]

end Attributes

section Elements

/-- The opening tag of an element without attributes. -/
def openTag (name : String) : List Char := ("<" ++ name ++ ">").toList

/-- The closing tag of an element. -/
def closeTag (name : String) : List Char := ("</" ++ name ++ ">").toList

/-- The start of an element with attributes. -/
def tagStart (name : String) : List Char := ("<" ++ name).toList

/-- An element is its character data between its tags. -/
theorem toList_element (name text : String) :
    (element name text).toList = openTag name ++ (characterData text.toList ++ closeTag name) := by
  simp only [element, openTag, closeTag, String.toList_append, String.toList_ofList,
    List.append_assoc, -String.reduceToList]

/-- What stands between the outer brackets of an element's section keeps to itself. -/
theorem toList_element_brackets (name text : String) : (element name text).toList =
    (openTag name ++ ['<', '!']) ++ '[' ::
      ((['C', 'D', 'A', 'T', 'A', '['] ++ (splitSections text.toList ++ [']'])) ++
        ']' :: '>' :: closeTag name) := by
  have hstart : sectionStart = ['<', '!'] ++ '[' :: ['C', 'D', 'A', 'T', 'A', '['] := sectionStart_eq
  rw [toList_element, characterData, hstart, sectionEnd_eq]
  simp only [List.append_assoc, List.cons_append, List.nil_append]

/-- A tag has characters. -/
theorem closeTag_ne_nil (name : String) : closeTag name ≠ [] := by
  have hmark : "</".toList ≠ [] := by decide
  simp only [closeTag, String.toList_append, ne_eq, List.append_eq_nil_iff, hmark, false_and,
    not_false_eq_true, -String.reduceToList]

/-- A tag ends with an angle bracket. -/
theorem getLast_closeTag (name : String) : (closeTag name).getLast (closeTag_ne_nil name) = '>' := by
  rw [← Option.some.injEq, ← List.getLast?_eq_some_getLast, closeTag, String.toList_append,
    List.getLast?_append_of_ne_nil _ (by decide)]
  decide

/-- A closing tag that does not occur in a text is found first behind it. -/
theorem cut?_closeTag {name : String} {text : List Char} (rest : List Char)
    (hname : '>' ∉ (closeTag name).dropLast) (htext : ¬closeTag name <:+: text) :
    cut? (closeTag name) (text ++ (closeTag name ++ rest)) = some (text, rest) := by
  refine cut?_append rest (closeTag_ne_nil name) fun hoccurs => htext ?_
  refine occurs_of_occurs_append (closeTag_ne_nil name) ?_ hoccurs
  rw [getLast_closeTag]
  exact hname

/-- A tag without brackets that occurs neither in a text nor at the tags of an element does not
occur in the element. -/
theorem not_occurs_element {name text : String} {word : List Char} (hhead : word.head? = some '<')
    (hopen : '[' ∉ word) (hclose : ']' ∉ word) (hbetween : ¬word <:+: betweenSections)
    (hopenTag : ¬word <:+: openTag name ++ ['<', '!']) (hcloseTag : ¬word <:+: '>' :: closeTag name)
    (h : ¬word <:+: text.toList) : ¬word <:+: (element name text).toList := by
  have hdata := not_occurs_characterData hhead hopen hclose hbetween h
  have hstart : sectionStart = ['<', '!', '['] ++ ['C', 'D', 'A', 'T', 'A', '['] := sectionStart_eq
  rw [toList_element_brackets]
  refine not_occurs_between hopenTag ?_ hcloseTag hopen hclose
  intro hoccurs
  refine hdata (hoccurs.trans ⟨['<', '!', '['], [']', '>'], ?_⟩)
  rw [characterData, hstart, sectionEnd_eq]
  simp only [List.append_assoc, List.cons_append, List.nil_append]

/-- The first element of a name is read back if its text has no closing tag. -/
theorem firstElement?_append {name : String} {before text : List Char} (rest : List Char)
    (hname : '>' ∉ (closeTag name).dropLast) (hopen : openTag name ≠ [])
    (hbefore : ¬openTag name <:+: before ++ (openTag name).dropLast)
    (htext : ¬closeTag name <:+: characterData text) :
    firstElement? name (before ++ (openTag name ++ (characterData text ++ (closeTag name ++ rest)))) =
      some (trim text) := by
  have hstart := cut?_append (characterData text ++ (closeTag name ++ rest)) hopen hbefore
  have hend := cut?_closeTag rest hname htext
  rw [firstElement?, between?]
  change ((cut? (openTag name) _).bind _).map elementText = _
  rw [hstart]
  change ((cut? (closeTag name) _).map Prod.fst).map elementText = _
  rw [hend]
  exact congrArg some (elementText_characterData text)

/-- Without its opening tag there is no element. -/
theorem firstElement?_eq_none {name : String} {text : List Char} (h : ¬openTag name <:+: text) :
    firstElement? name text = none := by
  have hnone : cut? (openTag name) text = none := cut?_eq_none h
  rw [firstElement?, between?]
  change ((cut? (openTag name) text).bind _).map elementText = none
  rw [hnone]
  rfl

/-- An element with attributes needs its start. -/
theorem takeElement?_eq_none {name : String} {text : List Char}
    (h : after? (tagStart name) text = none) : takeElement? name text = none := by
  rw [takeElement?]
  change (after? (tagStart name) text).bind _ = none
  rw [h, Option.bind_none]

/-- An element whose name only starts with the name is not recognised. -/
theorem takeElement?_longer {name : String} {c : Char} (rest : List Char) (hc : isSpace c = false) :
    takeElement? name (tagStart name ++ c :: rest) = none := by
  rw [takeElement?]
  change (after? (tagStart name) _).bind _ = none
  rw [after?_append, Option.bind_some, startsWithSpace, hc, if_neg (by decide)]

/-- Reading an element advances. -/
theorem advances_takeElement? (name : String) : Advances (takeElement? name) := by
  intro text found rest h
  rw [takeElement?] at h
  obtain ⟨tail, hstart, h⟩ := Option.bind_eq_some_iff.mp h
  have hlength := length_after? hstart
  have hdrop := length_dropWhile_le isSpace tail
  have hhead := length_dropWhile_le (· != '>') (tail.dropWhile isSpace)
  split at h
  · split at h
    · simp at h
    · rename_i d body hbody
      rw [hbody, List.length_cons] at hhead
      dsimp only at h
      split at h
      · simp only [Option.some.injEq, Prod.mk.injEq] at h
        rw [← h.2]
        omega
      · obtain ⟨⟨inside, after⟩, hcut, h⟩ := Option.map_eq_some_iff.mp h
        simp only [Prod.mk.injEq] at h
        have hsplit := congrArg List.length (eq_of_cut? hcut)
        simp only [List.length_append] at hsplit
        rw [← h.2]
        omega
  · simp at h

variable {name : String} {head : List Char}

/-- The head of an element is passed up to its closing angle bracket. -/
theorem takeElement?_eq (rest : List Char) (hfirst : ∀ c ∈ head.head?, isSpace c = false)
    (hne : head ≠ []) (hhead : '>' ∉ head) :
    takeElement? name (tagStart name ++ ' ' :: (head ++ '>' :: rest)) =
      if head.getLast? = some '/' then some (⟨head.dropLast, none⟩, rest)
      else (cut? (closeTag name) rest).map fun (body, rest) => (⟨head, some body⟩, rest) := by
  have hdrop : (' ' :: (head ++ '>' :: rest)).dropWhile isSpace = head ++ '>' :: rest := by
    obtain ⟨c, tail, rfl⟩ := List.exists_cons_of_ne_nil hne
    rw [List.dropWhile_cons_of_pos (by decide), List.cons_append, List.dropWhile_cons_of_neg]
    simp [hfirst c rfl]
  have hrun : ∀ c ∈ head, (c != '>') = true := by
    intro c hc
    rw [bne_iff_ne]
    exact fun heq => hhead (heq ▸ hc)
  rw [takeElement?]
  change (after? (tagStart name) _).bind _ = _
  rw [after?_append, Option.bind_some, startsWithSpace, if_pos (by decide)]
  simp only [hdrop, takeWhile_append_cons rest hrun (show ('>' != '>') = false by decide),
    dropWhile_append_cons rest hrun (show ('>' != '>') = false by decide)]
  rfl

end Elements

section Openings

/-- Somewhere in the text an element of the name starts that may have attributes: white space stands
behind the start of its tag. -/
def Opens (name : String) (text : List Char) : Prop :=
  ∃ c, isSpace c = true ∧ tagStart name ++ [c] <:+: text

variable {name : String} {left right start text : List Char} {c : Char}

/-- An element is opened where the start of its tag is followed by a text that starts with white
space. -/
theorem opens_iff : Opens name text ↔
    ∃ tail ∈ text.tails, (after? (tagStart name) tail).any startsWithSpace = true := by
  constructor
  · rintro ⟨c, hspace, hoccurs⟩
    obtain ⟨tail, ⟨rest, rfl⟩, hsuffix⟩ := List.infix_iff_prefix_suffix.mp hoccurs
    refine ⟨_, (List.mem_tails _ _).mpr hsuffix, ?_⟩
    rw [List.append_assoc, after?_append]
    exact hspace
  · rintro ⟨tail, hsuffix, hstarts⟩
    obtain ⟨rest, hrest, hspace⟩ := (Option.any_eq_true _ _).mp hstarts
    obtain ⟨c, rest, rfl⟩ : ∃ c rest', rest = c :: rest' := by
      apply List.exists_cons_of_ne_nil
      rintro rfl
      simp [startsWithSpace] at hspace
    refine ⟨c, hspace, List.infix_iff_prefix_suffix.mpr ⟨tail, ⟨rest, ?_⟩, (List.mem_tails _ _).mp hsuffix⟩⟩
    rw [after?_eq_some_iff.mp hrest, List.append_assoc, List.singleton_append]

instance : Decidable (Opens name text) := decidable_of_iff _ opens_iff.symm

/-- The start of a tag has an angle bracket. -/
theorem angle_mem_tagStart (name : String) : '<' ∈ tagStart name := by
  rw [tagStart, String.toList_append]
  exact List.mem_append_left _ (by decide)

/-- No element is opened without the start of its tag. -/
theorem not_opens_of_not_occurs (h : ¬tagStart name <:+: text) : ¬Opens name text := by
  rintro ⟨c, -, hoccurs⟩
  exact h ((List.prefix_append _ _).isInfix.trans hoccurs)

/-- A character that is neither in the start of the tag nor white space separates. -/
theorem notMem_opening (hc : c ∉ tagStart name) (hspace : isSpace c = false) {d : Char}
    (hd : isSpace d = true) : c ∉ tagStart name ++ [d] := by
  rw [List.mem_append, List.mem_singleton, not_or]
  refine ⟨hc, fun heq => ?_⟩
  rw [heq, hd] at hspace
  exact absurd hspace (by decide)

/-- An element is opened on one side of a separator. -/
theorem opens_append_cons_iff (hc : c ∉ tagStart name) (hspace : isSpace c = false) :
    Opens name (left ++ c :: right) ↔ Opens name left ∨ Opens name right := by
  simp only [Opens, ← exists_or, ← and_or_left]
  refine exists_congr fun d => and_congr_right fun hd => ?_
  exact infix_append_cons_iff (notMem_opening hc hspace hd)

/-- A separator in front opens no element. -/
theorem opens_cons_iff (hc : c ∉ tagStart name) (hspace : isSpace c = false) :
    Opens name (c :: right) ↔ Opens name right := by
  have hnil : ¬Opens name [] := not_opens_of_not_occurs <|
    not_infix_of_notMem (angle_mem_tagStart name) List.not_mem_nil
  rw [← List.nil_append (c :: right), opens_append_cons_iff hc hspace]
  exact or_iff_right hnil

/-- Splitting a text into sections opens no element. -/
theorem not_opens_splitSections (hopen : '[' ∉ tagStart name) (hclose : ']' ∉ tagStart name)
    (hbetween : ¬Opens name betweenSections) (h : ¬Opens name text) :
    ¬Opens name (splitSections text) := by
  rintro ⟨d, hd, hoccurs⟩
  have hhead : (tagStart name ++ [d]).head? = some '<' := by
    rw [tagStart, String.toList_append]
    rfl
  refine not_occurs_splitSections hhead (notMem_opening hopen (by decide) hd)
    (notMem_opening hclose (by decide) hd) ?_ ?_ hoccurs
  · exact fun hbetween' => hbetween ⟨d, hd, hbetween'⟩
  · exact fun htext => h ⟨d, hd, htext⟩

/-- Where nothing is opened no element is recognised, whatever follows a separator. -/
theorem takeElement?_of_not_opens {before after : List Char} {d : Char} (rest : List Char)
    (h : ¬Opens name (before ++ d :: after)) (hc : c ∉ tagStart name) (hspace : isSpace c = false) :
    takeElement? name (d :: (after ++ c :: rest)) = none := by
  cases hstart : after? (tagStart name) (d :: (after ++ c :: rest)) with
  | none => exact takeElement?_eq_none hstart
  | some tail =>
    have hsplit := after?_eq_some_iff.mp hstart
    cases tail with
    | nil =>
      rw [hsplit, List.append_nil] at hstart
      rw [hsplit, List.append_nil, takeElement?]
      change (after? (tagStart name) _).bind _ = none
      rw [hstart]
      rfl
    | cons s tail =>
      rw [hsplit]
      refine takeElement?_longer tail (Bool.eq_false_iff.mpr fun hs => h ⟨s, hs, ?_⟩)
      have hprefix : tagStart name ++ [s] <+: (d :: after) ++ c :: rest := by
        rw [List.cons_append, hsplit]
        exact (List.prefix_append_right_inj _).mpr (List.cons_prefix_cons.mpr ⟨rfl, List.nil_prefix⟩)
      have hinside := prefix_of_prefix_append_cons (notMem_opening hc hspace hs) hprefix
      exact hinside.isInfix.trans (List.suffix_append before _).isInfix

/-- A search for elements passes over a text that opens none, up to and including a separator. -/
theorem findAll_append_of_not_opens (rest : List Char) (h : ¬Opens name start)
    (hc : c ∉ tagStart name) (hspace : isSpace c = false) :
    findAll (takeElement? name) (start ++ c :: rest) = findAll (takeElement? name) rest := by
  have hne : tagStart name ≠ [] := by
    rw [tagStart, String.toList_append]
    exact List.cons_ne_nil _ _
  apply findAll_append_cons_of_reject
  · intro before d after hsplit
    exact takeElement?_of_not_opens rest (hsplit ▸ h) hc hspace
  · exact takeElement?_eq_none (after?_eq_none_of_notMem rest hne hc)

/-- No element is opened in a text around an element of another name and in what stands at its tags,
so none is opened in the whole, unless the text of that element opens it. -/
theorem not_opens_around_element {other description : String} {before after : List Char}
    (hopen : '[' ∉ tagStart name) (hclose : ']' ∉ tagStart name)
    (hbetween : ¬Opens name betweenSections)
    (hbefore : ¬Opens name (before ++ (openTag other ++ ['<', '!'])))
    (hafter : ¬Opens name ('>' :: (closeTag other ++ after)))
    (h : ¬Opens name description.toList) :
    ¬Opens name (before ++ ((element other description).toList ++ after)) := by
  have hdata : ¬Opens name "CDATA".toList := not_opens_of_not_occurs <|
    not_infix_of_notMem (angle_mem_tagStart name) (by decide)
  have hsplit : before ++ ((element other description).toList ++ after) =
      (before ++ (openTag other ++ ['<', '!'])) ++ '[' :: ("CDATA".toList ++ '[' ::
        (splitSections description.toList ++ ']' :: ']' :: '>' :: (closeTag other ++ after))) := by
    have hword : "CDATA".toList = ['C', 'D', 'A', 'T', 'A'] := by decide
    rw [toList_element_brackets, hword]
    simp only [List.append_assoc, List.cons_append, List.nil_append]
  rw [hsplit, opens_append_cons_iff hopen (by decide), opens_append_cons_iff hopen (by decide),
    opens_append_cons_iff hclose (by decide), opens_cons_iff hclose (by decide)]
  rintro (hopens | hopens | hopens | hopens)
  · exact hbefore hopens
  · exact hdata hopens
  · exact not_opens_splitSections hopen hclose hbetween h hopens
  · exact hafter hopens

end Openings

end PlcTypes.Markup
