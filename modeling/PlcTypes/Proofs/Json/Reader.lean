import PlcTypes.Json.Printer
import PlcTypes.Json.Reader
import PlcTypes.Proofs.Number.Integer
import PlcTypes.Proofs.Text.Search

/-!
# Printed JSON is read back

Values whose numbers are natural are read as they were printed, however deep they are nested. A
scan stops where the text of its value ends, since a comma, a line break or nothing follows, and
the fuel of a value is the length of its text.
-/

namespace PlcTypes.Json

open Text Number

section Strings

/-- The escape of a control character is read as its code. -/
theorem readDigits_fourDigits {n : Nat} (h : n < 0x20) : readDigits 16 (fourDigits n) = some n := by
  revert n
  decide

/-- A character that needs no escape is scanned as it is. -/
theorem takeUnits?_cons {c : Char} (rest : List Char) (hquote : c ≠ '"') (hslash : c ≠ '\\')
    (hcontrol : 0x20 ≤ c.toNat) :
    takeUnits? (c :: rest) = (takeUnits? rest).map fun found => (c.toNat :: found.1, found.2) := by
  rw [takeUnits?, if_neg]
  · rintro (h | h)
    · exact hslash h
    · omega
  · simpa using hquote
  · simp [hslash]
  · simp [hslash]

/-- An escape by a letter is scanned as what the letter stands for. -/
theorem takeUnits?_escape {c escaped : Char} (rest : List Char) (hunit : c ≠ 'u')
    (hletter : letterEscape? c = some escaped) :
    takeUnits? ('\\' :: c :: rest) =
      (takeUnits? rest).map fun found => (escaped.toNat :: found.1, found.2) := by
  rw [takeUnits?, hletter]
  · cases takeUnits? rest <;> rfl
  · exact fun _ _ _ _ _ h => absurd h hunit

/-- An escape by digits is scanned as their value. -/
theorem takeUnits?_fourDigits {n : Nat} (rest : List Char) (h : n < 0x20) :
    takeUnits? ('\\' :: 'u' :: (fourDigits n ++ rest)) =
      (takeUnits? rest).map fun found => (n :: found.1, found.2) := by
  have hdigits := readDigits_fourDigits h
  rw [fourDigits, List.map_cons, List.map_cons, List.map_cons, List.map_cons, List.map_nil] at *
  rw [List.cons_append, List.cons_append, List.cons_append, List.cons_append, List.nil_append,
    takeUnits?, fourDigits?, hdigits]
  cases takeUnits? rest <;> rfl

/-- A character is scanned as its code, escaped or not. -/
theorem takeUnits?_escapeChar (c : Char) (rest : List Char) :
    takeUnits? (escapeChar c ++ rest) =
      (takeUnits? rest).map fun found => (c.toNat :: found.1, found.2) := by
  unfold escapeChar
  split_ifs with hquote hslash hback hfeed hline hreturn htab hcontrol
  · subst hquote
    exact takeUnits?_escape rest (by decide) (by decide)
  · subst hslash
    exact takeUnits?_escape rest (by decide) (by decide)
  · subst hback
    exact takeUnits?_escape rest (by decide) (by decide)
  · subst hfeed
    exact takeUnits?_escape rest (by decide) (by decide)
  · subst hline
    exact takeUnits?_escape rest (by decide) (by decide)
  · subst hreturn
    exact takeUnits?_escape rest (by decide) (by decide)
  · subst htab
    exact takeUnits?_escape rest (by decide) (by decide)
  · exact takeUnits?_fourDigits rest hcontrol
  · exact takeUnits?_cons rest hquote hslash (Nat.not_lt.mp hcontrol)

/-- The escapes of a text are scanned as its codes. -/
theorem takeUnits?_flatMap (text rest : List Char) :
    takeUnits? (text.flatMap escapeChar ++ '"' :: rest) = some (text.map Char.toNat, rest) := by
  induction text with
  | nil => rfl
  | cons c text ih =>
    rw [List.flatMap_cons, List.append_assoc, takeUnits?_escapeChar, ih]
    rfl

/-- No character is half of a surrogate pair. -/
theorem not_surrogate (c : Char) :
    isHighSurrogate c.toNat = false ∧ isLowSurrogate c.toNat = false := by
  have hvalid : c.toNat < 0xD800 ∨ 0xDFFF < c.toNat ∧ c.toNat < 0x110000 := c.valid
  simp only [isHighSurrogate, isLowSurrogate, Bool.and_eq_false_iff, decide_eq_false_iff_not]
  omega

/-- Codes of characters are joined to the characters. -/
theorem joinUnits?_map (text : List Char) : joinUnits? (text.map Char.toNat) = some text := by
  induction text with
  | nil => rfl
  | cons c text ih =>
    obtain ⟨hhigh, hlow⟩ := not_surrogate c
    cases text with
    | nil => simp [joinUnits?, hhigh, hlow, Char.ofNat_toNat]
    | cons next text =>
      rw [List.map_cons, List.map_cons, joinUnits?, ← List.map_cons, ih]
      simp [hhigh, hlow, Char.ofNat_toNat]

/-- The characters of a string between its quotes. -/
theorem toList_quote (text : String) :
    (quote text).toList = '"' :: (text.toList.flatMap escapeChar ++ ['"']) := by
  simp [quote]

/-- A string is scanned as its text. -/
theorem takeString?_flatMap (text : String) (rest : List Char) :
    takeString? (text.toList.flatMap escapeChar ++ '"' :: rest) = some (string text, rest) := by
  simp [takeString?, takeUnits?_flatMap, joinUnits?_map]

end Strings

section Numbers

/-- What follows a value in an object or an array, or at the end of a text. -/
def Ends (rest : List Char) : Prop := ∀ c ∈ rest.head?, c = ',' ∨ c = '\n'

/-- No decimal spelling starts with a zero, but that of zero. -/
theorem toDigits_ne_zero_cons {n : Nat} {c : Char} {rest : List Char} :
    Nat.toDigits 10 n ≠ '0' :: c :: rest := by
  induction n using Nat.strongRecOn generalizing c rest with
  | ind n ih =>
    intro h
    by_cases hn : n < 10
    · simp [Nat.toDigits_of_lt_base hn] at h
    · rw [Nat.toDigits_of_base_le (by decide) (by omega)] at h
      -- the digits before the last one are those of a tenth, which is not zero
      have hzero : Nat.toDigits 10 (n / 10) = ['0'] := by
        cases hdigits : Nat.toDigits 10 (n / 10) with
        | nil => exact absurd hdigits Nat.toDigits_ne_nil
        | cons first others =>
          rw [hdigits, List.cons_append] at h
          obtain rfl := (List.cons.inj h).1
          cases others with
          | nil => rfl
          | cons second others => exact absurd hdigits (ih (n / 10) (by omega))
      have hvalue := Nat.ofDigitChars_ten_toDigits (n := n / 10)
      rw [hzero] at hvalue
      have : n / 10 = 0 := hvalue.symm
      omega

/-- Digits are taken up to the end. -/
theorem takeDigits?_append {digits rest : List Char} (hne : digits ≠ [])
    (hdigits : ∀ c ∈ digits, c.isDigit = true) (hrest : Ends rest) :
    takeDigits? (digits ++ rest) = some (digits, rest) := by
  have hstop : rest.takeWhile Char.isDigit = [] ∧ rest.dropWhile Char.isDigit = rest := by
    cases rest with
    | nil => exact ⟨rfl, rfl⟩
    | cons c rest =>
      have hc : ¬c.isDigit = true := by
        rcases hrest c rfl with rfl | rfl <;> decide
      exact ⟨List.takeWhile_cons_of_neg hc, List.dropWhile_cons_of_neg hc⟩
  rw [takeDigits?, List.takeWhile_append_of_pos hdigits, List.dropWhile_append_of_pos hdigits,
    hstop.1, hstop.2, List.append_nil]
  cases digits with
  | nil => exact absurd rfl hne
  | cons c digits => rfl

/-- The whole part of a number is its decimal spelling. -/
theorem takeWhole?_toDigits (n : Nat) {rest : List Char} (hrest : Ends rest) :
    takeWhole? (Nat.toDigits 10 n ++ rest) = some (Nat.toDigits 10 n, rest) := by
  obtain ⟨c, others, hdigits, -⟩ := toDigits_eq_cons n
  by_cases hzero : c = '0'
  · subst hzero
    cases others with
    | nil =>
      rw [hdigits]
      rfl
    | cons second others => exact absurd hdigits toDigits_ne_zero_cons
  · rw [hdigits, List.cons_append, takeWhole?, ← List.cons_append, ← hdigits]
    · exact takeDigits?_append Nat.toDigits_ne_nil (fun _ => isDigit_of_mem_toDigits) hrest
    · exact fun _ h => absurd (List.cons.inj h).1 hzero

/-- No fraction and no exponent follow at the end of a value. -/
theorem take?_of_ends {rest : List Char} (hrest : Ends rest) :
    takeFraction? rest = some ([], rest) ∧ takeExponent? rest = some ([], rest) := by
  cases rest with
  | nil => exact ⟨rfl, rfl⟩
  | cons c rest => rcases hrest c rfl with rfl | rfl <;> exact ⟨rfl, rfl⟩

/-- A natural number is scanned as its spelling. -/
theorem takeNumber?_toDigits (n : Nat) {rest : List Char} (hrest : Ends rest) :
    takeNumber? (Nat.toDigits 10 n ++ rest) = some (number (toString n), rest) := by
  obtain ⟨c, others, hdigits, -, -, hminus⟩ := toDigits_eq_cons n
  obtain ⟨hfraction, hexponent⟩ := take?_of_ends hrest
  unfold takeNumber?
  split
  rename_i sign text hsign
  split at hsign
  · rename_i negative heq
    rw [hdigits] at heq
    exact absurd (List.cons.inj heq).1 hminus
  · obtain ⟨rfl, rfl⟩ := Prod.mk.inj hsign
    rw [takeWhole?_toDigits n hrest, Nat.toString_eq_ofList_toDigits]
    simp [hfraction, hexponent]

end Numbers

section Values

/-- A value that can be read back: its numbers are natural, and its strings have texts. -/
inductive IsPrintable : Json → Prop where
  | null : IsPrintable .null
  | bool (value : Bool) : IsPrintable (.bool value)
  | number (n : Nat) : IsPrintable (.number (toString n))
  | string (text : String) : IsPrintable (.string text)
  | array {items : List Json} (h : ∀ item ∈ items, IsPrintable item) : IsPrintable (.array items)
  | object {entries : List (String × Json)} (h : ∀ entry ∈ entries, IsPrintable entry.2) :
    IsPrintable (.object entries)

/-- Line breaks and the spaces of an indentation are gaps. -/
theorem isGap_of_mem_indent (level : Nat) {c : Char} (h : c ∈ '\n' :: (indent level).toList) :
    isGap c = true := by
  rcases List.mem_cons.mp h with rfl | h
  · rfl
  · rw [indent, String.toList_ofList] at h
    rw [List.eq_of_mem_replicate h]
    rfl

/-- A value is read with any gap in front of it. -/
theorem takeValue?_append {gap : List Char} (fuel : Nat) (text : List Char)
    (hgap : ∀ c ∈ gap, isGap c = true) : takeValue? fuel (gap ++ text) = takeValue? fuel text := by
  cases fuel with
  | zero => rfl
  | succ fuel => rw [takeValue?, takeValue?, List.dropWhile_append_of_pos hgap]

/-- A value is read back wherever it stands, if it may be nested deep enough. -/
def ReadsBack (value : Json) : Prop :=
  ∀ level fuel rest, (render level value).toList.length ≤ fuel → Ends rest →
    takeValue? (fuel + 1) ((render level value).toList ++ rest) = some (value, rest)

/-- A null value is read back. -/
theorem takeValue?_null (level fuel : Nat) (rest : List Char) :
    takeValue? (fuel + 1) ((render level null).toList ++ rest) = some (null, rest) := by
  simp [render, takeValue?, isGap, after?]

/-- A truth value is read back. -/
theorem takeValue?_bool (level fuel : Nat) (value : Bool) (rest : List Char) :
    takeValue? (fuel + 1) ((render level (bool value)).toList ++ rest) =
      some (bool value, rest) := by
  cases value <;> simp [render, takeValue?, isGap, after?]

/-- A text that starts with a digit is read as a number. -/
theorem takeValue?_digit {c : Char} (fuel : Nat) (text : List Char) (hc : c.isDigit = true) :
    takeValue? (fuel + 1) (c :: text) = takeNumber? (c :: text) := by
  have hgap : ¬isGap c = true := by
    intro hgap
    simp only [isGap, Bool.or_eq_true, beq_iff_eq] at hgap
    rcases hgap with ((rfl | rfl) | rfl) | rfl <;> exact absurd hc (by decide)
  have hword {word : List Char} (w : Char) (hw : w.isDigit = false) :
      after? (w :: word) (c :: text) = none :=
    after?_cons_of_ne _ _ (by rintro rfl; simp [hc] at hw)
  rw [takeValue?, List.dropWhile_cons_of_neg hgap]
  split
  · rename_i heq
    exact absurd ((List.cons.inj heq).1 ▸ hc) (by decide)
  · rename_i heq
    exact absurd ((List.cons.inj heq).1 ▸ hc) (by decide)
  · rename_i heq
    exact absurd ((List.cons.inj heq).1 ▸ hc) (by decide)
  · simp [hword]

/-- A natural number is read back. -/
theorem takeValue?_number (level fuel n : Nat) {rest : List Char} (hrest : Ends rest) :
    takeValue? (fuel + 1) ((render level (number (toString n))).toList ++ rest) =
      some (number (toString n), rest) := by
  obtain ⟨c, others, hdigits, hc, -⟩ := toDigits_eq_cons n
  rw [← takeNumber?_toDigits n hrest, render, Nat.toString_eq_ofList_toDigits,
    String.toList_ofList, hdigits, List.cons_append, takeValue?_digit fuel _ hc]

/-- A string is read back. -/
theorem takeValue?_string (level fuel : Nat) (text : String) (rest : List Char) :
    takeValue? (fuel + 1) ((render level (string text)).toList ++ rest) =
      some (string text, rest) := by
  rw [render, toList_quote, List.cons_append, List.append_assoc, takeValue?,
    List.dropWhile_cons_of_neg (by decide)]
  exact takeString?_flatMap text rest

section Steps

variable {gap text more rest behind : List Char} {fuel : Nat} {key : String} {value item : Json}

/-- A key comes behind its opening quote. -/
theorem dropWhile_quote (hgap : ∀ c ∈ gap, isGap c = true) :
    (gap ++ ((quote key).toList ++ text)).dropWhile isGap =
      '"' :: (key.toList.flatMap escapeChar ++ '"' :: text) := by
  rw [List.dropWhile_append_of_pos hgap, toList_quote, List.cons_append, List.append_assoc,
    List.singleton_append, List.dropWhile_cons_of_neg (by decide)]

/-- A colon is no gap. -/
theorem dropWhile_colon : (':' :: text).dropWhile isGap = ':' :: text :=
  List.dropWhile_cons_of_neg (by decide)

/-- The last entry is followed by the end of the object. -/
theorem takeEntries?_last (hgap : ∀ c ∈ gap, isGap c = true)
    (hvalue : takeValue? fuel text = some (value, more))
    (hmore : more.dropWhile isGap = '\x7d' :: rest) :
    takeEntries? (fuel + 1) (gap ++ ((quote key).toList ++ ':' :: text)) =
      some ([(key, value)], rest) := by
  simp only [takeEntries?, dropWhile_quote hgap, takeString?_flatMap, dropWhile_colon, hvalue, hmore]

/-- Any other entry is followed by a comma and further entries. -/
theorem takeEntries?_comma {others : List (String × Json)} (hgap : ∀ c ∈ gap, isGap c = true)
    (hvalue : takeValue? fuel text = some (value, more))
    (hmore : more.dropWhile isGap = ',' :: behind)
    (hothers : takeEntries? fuel behind = some (others, rest)) :
    takeEntries? (fuel + 1) (gap ++ ((quote key).toList ++ ':' :: text)) =
      some ((key, value) :: others, rest) := by
  simp only [takeEntries?, dropWhile_quote hgap, takeString?_flatMap, dropWhile_colon, hvalue, hmore,
    hothers, Option.map_some]

/-- The last item is followed by the end of the array. -/
theorem takeItems?_last (hitem : takeValue? fuel text = some (item, more))
    (hmore : more.dropWhile isGap = ']' :: rest) :
    takeItems? (fuel + 1) text = some ([item], rest) := by
  simp only [takeItems?, hitem, hmore]

/-- Any other item is followed by a comma and further items. -/
theorem takeItems?_comma {others : List Json} (hitem : takeValue? fuel text = some (item, more))
    (hmore : more.dropWhile isGap = ',' :: behind)
    (hothers : takeItems? fuel behind = some (others, rest)) :
    takeItems? (fuel + 1) text = some (item :: others, rest) := by
  simp only [takeItems?, hitem, hmore, hothers, Option.map_some]

end Steps

/-- Further entries, and what follows the last one, stand behind the end of a value. -/
theorem ends_append_renderEntries {level : Nat} {others : List (String × Json)} {ending : List Char}
    (hends : Ends ending) : Ends ((renderEntries level others).toList ++ ending) := by
  cases others with
  | nil => simpa [renderEntries] using hends
  | cons next others =>
    intro c hc
    left
    simpa [renderEntries, eq_comm] using hc

/-- Further items, and what follows the last one, stand behind the end of a value. -/
theorem ends_append_renderItems {level : Nat} {others : List Json} {ending : List Char}
    (hends : Ends ending) : Ends ((renderItems level others).toList ++ ending) := by
  cases others with
  | nil => simpa [renderItems] using hends
  | cons next others =>
    intro c hc
    left
    simpa [renderItems, eq_comm] using hc

/-- The entries of an object are read back up to its end. -/
theorem takeEntries?_render (level : Nat) {rest ending : List Char} {others : List (String × Json)}
    (hends : Ends ending) (hending : ending.dropWhile isGap = '\x7d' :: rest)
    (hothers : ∀ entry ∈ others, ReadsBack entry.2) {gap : List Char} {key : String} {value : Json}
    {fuel : Nat} (hgap : ∀ c ∈ gap, isGap c = true) (hvalue : ReadsBack value)
    (hfuel : (render level value).toList.length + (renderEntries level others).toList.length + 1 <
      fuel) :
    takeEntries? fuel (gap ++ ((quote key).toList ++ ':' :: ' ' :: ((render level value).toList ++
      ((renderEntries level others).toList ++ ending)))) = some ((key, value) :: others, rest) := by
  induction others generalizing gap key value fuel with
  | nil =>
    obtain ⟨fuel, rfl⟩ : ∃ n, fuel = n + 2 := ⟨fuel - 2, by omega⟩
    have hread : takeValue? (fuel + 1) ([' '] ++ ((render level value).toList ++ ending)) =
        some (value, ending) := by
      rw [takeValue?_append (fuel + 1) _ (by decide)]
      exact hvalue level fuel ending (by omega) hends
    rw [renderEntries, String.toList_empty, List.nil_append]
    exact takeEntries?_last hgap hread hending
  | cons next others ih =>
    obtain ⟨nextKey, nextValue⟩ := next
    obtain ⟨fuel, rfl⟩ : ∃ n, fuel = n + 2 := ⟨fuel - 2, by omega⟩
    have hmore : (renderEntries level ((nextKey, nextValue) :: others)).toList ++ ending =
        ',' :: ('\n' :: (indent level).toList ++ ((quote nextKey).toList ++ ':' :: ' ' ::
          ((render level nextValue).toList ++ ((renderEntries level others).toList ++ ending)))) := by
      simp [renderEntries]
    have hlength := congrArg List.length hmore
    simp only [List.length_append, List.length_cons] at hlength
    have hread : takeValue? (fuel + 1) ([' '] ++ ((render level value).toList ++
        ((renderEntries level ((nextKey, nextValue) :: others)).toList ++ ending))) =
          some (value, (renderEntries level ((nextKey, nextValue) :: others)).toList ++ ending) := by
      rw [takeValue?_append (fuel + 1) _ (by decide)]
      exact hvalue level fuel _ (by omega) (ends_append_renderEntries hends)
    have hnext : takeEntries? (fuel + 1) _ = some ((nextKey, nextValue) :: others, rest) :=
      ih (fun entry hentry => hothers entry (List.mem_cons_of_mem _ hentry))
        (fun _ => isGap_of_mem_indent level) (hothers _ List.mem_cons_self) (by omega)
    refine takeEntries?_comma hgap hread ?_ hnext
    rw [hmore, List.dropWhile_cons_of_neg (by decide)]

/-- The items of an array are read back up to its end. -/
theorem takeItems?_render (level : Nat) {rest ending : List Char} {others : List Json}
    (hends : Ends ending) (hending : ending.dropWhile isGap = ']' :: rest)
    (hothers : ∀ item ∈ others, ReadsBack item) {gap : List Char} {item : Json} {fuel : Nat}
    (hgap : ∀ c ∈ gap, isGap c = true) (hitem : ReadsBack item)
    (hfuel : (render level item).toList.length + (renderItems level others).toList.length + 1 <
      fuel) :
    takeItems? fuel (gap ++ ((render level item).toList ++
      ((renderItems level others).toList ++ ending))) = some (item :: others, rest) := by
  induction others generalizing gap item fuel with
  | nil =>
    obtain ⟨fuel, rfl⟩ : ∃ n, fuel = n + 2 := ⟨fuel - 2, by omega⟩
    have hread : takeValue? (fuel + 1) (gap ++ ((render level item).toList ++ ending)) =
        some (item, ending) := by
      rw [takeValue?_append (fuel + 1) _ hgap]
      exact hitem level fuel ending (by omega) hends
    rw [renderItems, String.toList_empty, List.nil_append]
    exact takeItems?_last hread hending
  | cons next others ih =>
    obtain ⟨fuel, rfl⟩ : ∃ n, fuel = n + 2 := ⟨fuel - 2, by omega⟩
    have hmore : (renderItems level (next :: others)).toList ++ ending =
        ',' :: ('\n' :: (indent level).toList ++ ((render level next).toList ++
          ((renderItems level others).toList ++ ending))) := by
      simp [renderItems]
    have hlength := congrArg List.length hmore
    simp only [List.length_append, List.length_cons] at hlength
    have hread : takeValue? (fuel + 1) (gap ++ ((render level item).toList ++
        ((renderItems level (next :: others)).toList ++ ending))) =
          some (item, (renderItems level (next :: others)).toList ++ ending) := by
      rw [takeValue?_append (fuel + 1) _ hgap]
      exact hitem level fuel _ (by omega) (ends_append_renderItems hends)
    have hnext : takeItems? (fuel + 1) _ = some (next :: others, rest) :=
      ih (fun item hitem => hothers item (List.mem_cons_of_mem _ hitem))
        (fun _ => isGap_of_mem_indent level) (hothers _ List.mem_cons_self) (by omega)
    refine takeItems?_comma hread ?_ hnext
    rw [hmore, List.dropWhile_cons_of_neg (by decide)]

/-- What ends an object or an array is a bracket behind a line break and an indentation. -/
theorem ending_spec (level : Nat) {bracket : Char} (rest : List Char) (h : ¬isGap bracket = true) :
    Ends ('\n' :: (indent level).toList ++ bracket :: rest) ∧
      ('\n' :: (indent level).toList ++ bracket :: rest).dropWhile isGap = bracket :: rest := by
  constructor
  · intro c hc
    right
    simpa [eq_comm] using hc
  · rw [List.dropWhile_append_of_pos fun _ => isGap_of_mem_indent level, List.dropWhile_cons_of_neg h]

/-- A bracket is followed by the end of the array or by items. -/
theorem takeValue?_bracket (fuel : Nat) (text : List Char) :
    takeValue? (fuel + 1) ('[' :: text) =
      match text.dropWhile isGap with
      | ']' :: rest => some (array [], rest)
      | _ => (takeItems? fuel text).map fun (items, rest) => (array items, rest) := by
  rw [takeValue?, List.dropWhile_cons_of_neg (by decide)]
  rfl

/-- A brace is followed by the end of the object or by entries. -/
theorem takeValue?_brace (fuel : Nat) (text : List Char) :
    takeValue? (fuel + 1) ('\x7b' :: text) =
      match text.dropWhile isGap with
      | '\x7d' :: rest => some (object [], rest)
      | _ => (takeEntries? fuel text).map fun (entries, rest) => (object entries, rest) := by
  rw [takeValue?, List.dropWhile_cons_of_neg (by decide)]
  rfl

/-- No item starts with the end of the array. -/
theorem takeItems?_bracket {text rest : List Char} (fuel : Nat)
    (h : text.dropWhile isGap = ']' :: rest) : takeItems? fuel text = none := by
  have hvalue (fuel : Nat) : takeValue? fuel text = none := by
    cases fuel with
    | zero => rfl
    | succ fuel =>
      rw [takeValue?, h]
      simp [after?, takeNumber?, takeWhole?, takeDigits?]
  cases fuel with
  | zero => rfl
  | succ fuel => rw [takeItems?, hvalue]

/-- An array is read back if its items are. -/
theorem takeValue?_array (level fuel : Nat) {items : List Json}
    (hitems : ∀ item ∈ items, ReadsBack item) {rest : List Char}
    (hfuel : (render level (array items)).toList.length ≤ fuel) :
    takeValue? (fuel + 1) ((render level (array items)).toList ++ rest) =
      some (array items, rest) := by
  cases items with
  | nil => simp [render, takeValue?, isGap]
  | cons first others =>
    obtain ⟨hends, hending⟩ := ending_spec level rest (show ¬isGap ']' = true by decide)
    have htext : (render level (array (first :: others))).toList ++ rest =
        '[' :: ('\n' :: (indent (level + 1)).toList ++ ((render (level + 1) first).toList ++
          ((renderItems (level + 1) others).toList ++
            ('\n' :: (indent level).toList ++ ']' :: rest)))) := by
      simp [render]
    have hlength := congrArg List.length htext
    simp only [List.length_append, List.length_cons] at hlength
    have hread : takeItems? fuel _ = some (first :: others, rest) :=
      takeItems?_render (level + 1) hends hending
        (fun item hitem => hitems item (List.mem_cons_of_mem _ hitem))
        (fun _ => isGap_of_mem_indent (level + 1)) (hitems first List.mem_cons_self) (by omega)
    rw [htext, takeValue?_bracket]
    split
    · rename_i heq
      rw [takeItems?_bracket fuel heq] at hread
      cases hread
    · rw [hread]
      rfl

/-- An object is read back if the values of its entries are. -/
theorem takeValue?_object (level fuel : Nat) {entries : List (String × Json)}
    (hentries : ∀ entry ∈ entries, ReadsBack entry.2) {rest : List Char}
    (hfuel : (render level (object entries)).toList.length ≤ fuel) :
    takeValue? (fuel + 1) ((render level (object entries)).toList ++ rest) =
      some (object entries, rest) := by
  cases entries with
  | nil => simp [render, takeValue?, isGap]
  | cons first others =>
    obtain ⟨key, value⟩ := first
    obtain ⟨hends, hending⟩ := ending_spec level rest (show ¬isGap '\x7d' = true by decide)
    have htext : (render level (object ((key, value) :: others))).toList ++ rest =
        '\x7b' :: ('\n' :: (indent (level + 1)).toList ++ ((quote key).toList ++ ':' :: ' ' ::
          ((render (level + 1) value).toList ++ ((renderEntries (level + 1) others).toList ++
            ('\n' :: (indent level).toList ++ '\x7d' :: rest))))) := by
      simp [render]
    have hlength := congrArg List.length htext
    simp only [List.length_append, List.length_cons] at hlength
    have hread : takeEntries? fuel _ = some ((key, value) :: others, rest) :=
      takeEntries?_render (level + 1) hends hending
        (fun entry hentry => hentries entry (List.mem_cons_of_mem _ hentry))
        (fun _ => isGap_of_mem_indent (level + 1)) (hentries _ List.mem_cons_self) (by omega)
    rw [htext, takeValue?_brace]
    split
    · rename_i heq
      rw [dropWhile_quote fun _ => isGap_of_mem_indent (level + 1)] at heq
      exact absurd (List.cons.inj heq).1 (by decide)
    · rw [hread]
      rfl

/-- Every printable value is read back. -/
theorem IsPrintable.readsBack {value : Json} (h : IsPrintable value) : ReadsBack value := by
  induction h with
  | null => exact fun level fuel rest _ _ => takeValue?_null level fuel rest
  | bool value => exact fun level fuel rest _ _ => takeValue?_bool level fuel value rest
  | number n => exact fun level fuel rest _ hrest => takeValue?_number level fuel n hrest
  | string text => exact fun level fuel rest _ _ => takeValue?_string level fuel text rest
  | array _ ih => exact fun level fuel rest hfuel _ => takeValue?_array level fuel ih hfuel
  | object _ ih => exact fun level fuel rest hfuel _ => takeValue?_object level fuel ih hfuel

/-- A printed value is read as the value. -/
theorem ofText?_pretty {value : Json} (h : IsPrintable value) :
    ofText? value.pretty = some value := by
  have hread := h.readsBack 0 (render 0 value).toList.length [] (Nat.le_refl _)
    (fun c hc => by simp at hc)
  rw [List.append_nil] at hread
  rw [ofText?, ofChars?, pretty, hread]
  rfl

end Values

end PlcTypes.Json
