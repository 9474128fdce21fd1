import PlcTypes.DataType
import PlcTypes.Proofs.Number.Integer
import PlcTypes.Proofs.Text.Ascii

/-!
# Spelled types read back

A type is ordered if no array level has its bounds inverted. A spelling is read level by level,
and each level of an array spelling leaves exactly the spelling of its base. So an ordered type
reads back from its spelling if the leaf under its array levels does. Under an array the leaf
has to be more than nothing and to stay on the line, since the base of an array spelling is
what is left of the line.
-/

namespace PlcTypes

open Text Number

/-- A decimal digit of ASCII is one of the category Nd. -/
theorem isDecimalDigit_of_isDigit {c : Char} (h : c.isDigit = true) : isDecimalDigit c = true := by
  rw [isDecimalDigit, h, Bool.true_or]

/-- Digits at the front of a text are recognised in front of anything else. -/
theorem takeDigits?_append {digits : List Char} {stop : Char} (rest : List Char) (hne : digits ≠ [])
    (hdigits : ∀ c ∈ digits, isDecimalDigit c = true) (hstop : isDecimalDigit stop = false) :
    takeDigits? (digits ++ stop :: rest) = some (digits, stop :: rest) := by
  rw [takeDigits?, takeWhile_append_cons rest hdigits hstop, dropWhile_append_cons rest hdigits hstop]
  split
  · exact absurd rfl hne
  · rfl

/-- The digits of a number are taken up to a character that is no digit. -/
theorem takeDigits?_toDigits (n : Nat) {stop : Char} (rest : List Char)
    (hstop : isDecimalDigit stop = false) :
    takeDigits? (Nat.toDigits 10 n ++ stop :: rest) = some (Nat.toDigits 10 n, stop :: rest) :=
  takeDigits?_append rest Nat.toDigits_ne_nil
    (fun _ hc => isDecimalDigit_of_isDigit (isDigit_of_mem_toDigits hc)) hstop

/-- A spelled bound is taken up to a character that is no digit. -/
theorem takeBound?_showInt64 (bound : Int64) {stop : Char} (rest : List Char)
    (hstop : isDecimalDigit stop = false) :
    takeBound? ((showInt64 bound).toList ++ stop :: rest) =
      some ((showInt64 bound).toList, stop :: rest) := by
  rcases toList_showInt64 bound with ⟨n, hn⟩ | ⟨n, hn⟩
  · obtain ⟨c, digits, hdigits, -, -, hminus⟩ := toDigits_eq_cons n
    have htake := takeDigits?_toDigits n rest hstop
    rw [hn, ← htake, hdigits, List.cons_append, takeBound?]
    intro text heq
    exact absurd (List.cons.inj heq).1 hminus
  · rw [hn, List.cons_append, takeBound?, takeDigits?_toDigits n rest hstop]
    rfl

/-- The digit or sign a spelled bound starts with is no white space. -/
theorem dropWhile_isSpace_showInt64 (bound : Int64) (rest : List Char) :
    ((showInt64 bound).toList ++ rest).dropWhile isSpace = (showInt64 bound).toList ++ rest := by
  rcases toList_showInt64 bound with ⟨n, hn⟩ | ⟨n, hn⟩
  · obtain ⟨c, digits, hdigits, hdigit, -, -⟩ := toDigits_eq_cons n
    rw [hn, hdigits, List.cons_append,
      List.dropWhile_cons_of_neg (by simp [isSpace_of_isDigit hdigit])]
  · rw [hn, List.cons_append, List.dropWhile_cons_of_neg (by decide)]

/-- A spelled bound reads back. -/
theorem readBound_showInt64 (bound : Int64) : readBound (showInt64 bound).toList = .ok bound := by
  rw [readBound, readInt64_showInt64]

/-- A word of letters starts with a letter, so with no white space. -/
theorem dropWhile_isSpace_letters {word : List Char} (rest : List Char) (hne : word ≠ [])
    (hword : ∀ c ∈ word, c.isAlpha = true) : (word ++ rest).dropWhile isSpace = word ++ rest := by
  obtain ⟨c, tail, rfl⟩ := List.exists_cons_of_ne_nil hne
  rw [List.cons_append,
    List.dropWhile_cons_of_neg (by simp [isSpace_of_isAlpha (hword c List.mem_cons_self)])]

/-- The text of an array type around the text of its base. -/
def arrayText (arrayWord ofWord : String) (lower upper : Int64) (base : List Char) : List Char :=
  arrayWord.toList ++ '[' :: ((showInt64 lower).toList ++ '.' :: '.' ::
    ((showInt64 upper).toList ++ ']' :: ' ' :: (ofWord.toList ++ ' ' :: base)))

/-- The text of an array level, up to the word before the base. -/
def levelText (arrayWord ofWord : String) (lower upper : Int64) : List Char :=
  arrayWord.toList ++ '[' :: ((showInt64 lower).toList ++ '.' :: '.' ::
    ((showInt64 upper).toList ++ ']' :: ' ' :: ofWord.toList))

/-- The base stands behind the level and a space. -/
theorem arrayText_eq (arrayWord ofWord : String) (lower upper : Int64) (base : List Char) :
    arrayText arrayWord ofWord lower upper base =
      levelText arrayWord ofWord lower upper ++ ' ' :: base := by
  simp [arrayText, levelText]

/-- An array level is spelled around the spelling of the base. -/
theorem toList_spellWith_array (keyword : ScalarKind → String) (arrayWord ofWord : String)
    (base : DataType) (lower upper : Int64) :
    ((DataType.array base lower upper).spellWith keyword arrayWord ofWord).toList =
      arrayText arrayWord ofWord lower upper (base.spellWith keyword arrayWord ofWord).toList := by
  simp [DataType.spellWith, arrayText, String.toList_append]

section Level

variable {arrayWord ofWord : String} {base : List Char}

/-- The text of a level starts and ends with a letter. -/
theorem levelText_ends (lower upper : Int64)
    (harray : sameIgnoringCase "ARRAY".toList arrayWord.toList = true)
    (hof : sameIgnoringCase "OF".toList ofWord.toList = true) :
    (∃ c rest, levelText arrayWord ofWord lower upper = c :: rest ∧ isSpace c = false) ∧
      ∀ c ∈ (levelText arrayWord ofWord lower upper).getLast?, isSpace c = false := by
  have hletter {word found : List Char} (h : sameIgnoringCase word found = true)
      (hword : ∀ c ∈ word, c.isAlpha = true) : ∀ c ∈ found, isSpace c = false := fun c hc =>
    isSpace_of_isAlpha (isAlpha_of_sameIgnoringCase h hword c hc)
  have hne {word : String} {found : List Char} (h : sameIgnoringCase word.toList found = true)
      (hword : word.toList ≠ []) : found ≠ [] := by
    rintro rfl
    exact hword (List.length_eq_zero_iff.mp (length_of_sameIgnoringCase h).symm)
  constructor
  · obtain ⟨c, rest, hword⟩ := List.exists_cons_of_ne_nil (hne harray (by decide))
    exact ⟨c, _, by rw [levelText, hword, List.cons_append],
      hletter harray (by decide) c (hword ▸ List.mem_cons_self)⟩
  · intro c hc
    have hsplit : levelText arrayWord ofWord lower upper =
        (arrayWord.toList ++ '[' :: ((showInt64 lower).toList ++ '.' :: '.' ::
          ((showInt64 upper).toList ++ [']', ' ']))) ++ ofWord.toList := by
      simp [levelText]
    rw [hsplit, List.getLast?_append_of_ne_nil _ (hne hof (by decide))] at hc
    exact hletter hof (by decide) c (List.mem_of_getLast? hc)

/-- White space is trimmed only behind a level. -/
theorem trim_levelText (lower upper : Int64) (tail : List Char)
    (harray : sameIgnoringCase "ARRAY".toList arrayWord.toList = true)
    (hof : sameIgnoringCase "OF".toList ofWord.toList = true) :
    trim (levelText arrayWord ofWord lower upper ++ tail) =
      levelText arrayWord ofWord lower upper ++ dropEndWhile isSpace tail := by
  obtain ⟨⟨c, rest, hlevel, hc⟩, hlast⟩ := levelText_ends lower upper harray hof
  rw [trim, hlevel, List.cons_append, List.dropWhile_cons_of_neg (by simp [hc]), ← List.cons_append,
    ← hlevel, dropEndWhile_append_of_last tail hlast]

/-- A level is peeled off a text if there is white space behind it, and then more than nothing on
the rest of the line. -/
theorem arrayHead?_levelText (lower upper : Int64) (tail : List Char)
    (harray : sameIgnoringCase "ARRAY".toList arrayWord.toList = true)
    (hof : sameIgnoringCase "OF".toList ofWord.toList = true) :
    arrayHead? (levelText arrayWord ofWord lower upper ++ tail) =
      if (tail.dropWhile isSpace).length < tail.length ∧ tail.dropWhile isSpace ≠ [] ∧
          '\n' ∉ tail.dropWhile isSpace then
        some ⟨(showInt64 lower).toList, (showInt64 upper).toList, tail.dropWhile isSpace⟩
      else none := by
  have hofLetters := isAlpha_of_sameIgnoringCase hof (by decide)
  have hofNe : ofWord.toList ≠ [] := by
    intro hnil
    have := length_of_sameIgnoringCase hof
    simp [hnil] at this
  simp only [arrayHead?, levelText, List.append_assoc, List.cons_append,
    afterIgnoringCase?_append _ harray, bind, Option.bind_some]
  rw [List.dropWhile_cons_of_neg (by decide), after?, if_pos (by decide), after?, Option.bind_some,
    dropWhile_isSpace_showInt64, takeBound?_showInt64 _ _ (by decide), Option.bind_some]
  simp only
  rw [List.dropWhile_cons_of_neg (by decide), after?, if_pos (by decide), after?, if_pos (by decide),
    after?, Option.bind_some, dropWhile_isSpace_showInt64, takeBound?_showInt64 _ _ (by decide),
    Option.bind_some]
  simp only
  rw [List.dropWhile_cons_of_neg (by decide), after?, if_pos (by decide), after?, Option.bind_some,
    List.dropWhile_cons_of_pos (by decide), dropWhile_isSpace_letters _ hofNe hofLetters,
    afterIgnoringCase?_append _ hof, Option.bind_some]

/-- What is left of a text around white space is what is left of it behind a space. -/
theorem dropWhile_trimmedEnd (text : List Char) :
    (dropEndWhile isSpace (' ' :: text)).dropWhile isSpace = trim text := by
  rw [dropWhile_dropEndWhile, List.dropWhile_cons_of_pos (by decide), trim]

/-- An array level is peeled off its text, however much white space surrounds the base, if the base is
more than white space and stays on the line. -/
theorem arrayHead?_trim_arrayText (lower upper : Int64) (base : List Char)
    (harray : sameIgnoringCase "ARRAY".toList arrayWord.toList = true)
    (hof : sameIgnoringCase "OF".toList ofWord.toList = true) :
    arrayHead? (trim (arrayText arrayWord ofWord lower upper base)) =
      if trim base ≠ [] ∧ '\n' ∉ trim base then
        some ⟨(showInt64 lower).toList, (showInt64 upper).toList, trim base⟩
      else none := by
  have hshorter : trim base ≠ [] →
      (trim base).length < (dropEndWhile isSpace (' ' :: base)).length := by
    intro hne
    rw [← dropWhile_trimmedEnd] at hne ⊢
    obtain ⟨tail, htail⟩ := dropEndWhile_isPrefix isSpace (' ' :: base)
    cases hend : dropEndWhile isSpace (' ' :: base) with
    | nil => simp [hend] at hne
    | cons c rest =>
      obtain rfl : c = ' ' := by
        rw [hend, List.cons_append, List.cons.injEq] at htail
        exact htail.1
      rw [List.dropWhile_cons_of_pos (by decide)]
      exact Nat.lt_succ_of_le (length_dropWhile_le isSpace rest)
  rw [arrayText_eq, trim_levelText lower upper _ harray hof,
    arrayHead?_levelText lower upper _ harray hof, dropWhile_trimmedEnd]
  by_cases hne : trim base = []
  · simp [hne]
  · simp only [hshorter hne, true_and]

/-- The text of an array type is trimmed if that of its base is. -/
theorem isTrimmed_arrayText (lower upper : Int64)
    (harray : sameIgnoringCase "ARRAY".toList arrayWord.toList = true)
    (hof : sameIgnoringCase "OF".toList ofWord.toList = true)
    (htrim : IsTrimmed base) (hne : base ≠ []) :
    IsTrimmed (arrayText arrayWord ofWord lower upper base) := by
  obtain ⟨⟨c, rest, hlevel, hc⟩, -⟩ := levelText_ends lower upper harray hof
  rw [isTrimmed_iff, arrayText_eq]
  constructor
  · intro d hd
    rw [hlevel, List.cons_append, List.head?_cons, Option.mem_some_iff] at hd
    exact hd ▸ hc
  · intro d hd
    rw [← List.singleton_append, ← List.append_assoc, List.getLast?_append_of_ne_nil _ hne] at hd
    exact ((isTrimmed_iff _).mp htrim).2 d hd

end Level

namespace DataType

/-- The bounds are in order at every array level. -/
def IsOrdered : DataType → Prop
  | array base lower upper => lower ≤ upper ∧ base.IsOrdered
  | _ => True

/-- If the leaf under all array levels is a name, it satisfies `p`. -/
def NameSatisfies (p : String → Prop) : DataType → Prop
  | scalar _ => True
  | array base _ _ => base.NameSatisfies p
  | named name => p name

instance decidableIsOrdered : (type : DataType) → Decidable type.IsOrdered
  | scalar _ => inferInstanceAs (Decidable True)
  | named _ => inferInstanceAs (Decidable True)
  | array base lower upper =>
    have := decidableIsOrdered base
    inferInstanceAs (Decidable (lower ≤ upper ∧ base.IsOrdered))

instance decidableNameSatisfies (p : String → Prop) [DecidablePred p] :
    (type : DataType) → Decidable (type.NameSatisfies p)
  | scalar _ => inferInstanceAs (Decidable True)
  | named name => inferInstanceAs (Decidable (p name))
  | array base _ _ => decidableNameSatisfies p base

/-- A weaker condition on the name holds too. -/
theorem NameSatisfies.imp {p q : String → Prop} (h : ∀ name, p name → q name) {type : DataType}
    (htype : type.NameSatisfies p) : type.NameSatisfies q := by
  induction type with
  | scalar kind => trivial
  | array base lower upper ih => exact ih htype
  | named name => exact h name htype

/-- A type has a name that satisfies two conditions if it has one that satisfies each. -/
theorem NameSatisfies.and {p q : String → Prop} {type : DataType} (hp : type.NameSatisfies p)
    (hq : type.NameSatisfies q) : type.NameSatisfies fun name => p name ∧ q name := by
  induction type with
  | scalar kind => trivial
  | array base lower upper ih => exact ih hp hq
  | named name => exact ⟨hp, hq⟩

/-- Bounds in order are accepted. -/
theorem arrayOf_of_le {base : DataType} {lower upper : Int64} (h : lower ≤ upper) :
    base.arrayOf lower upper = .ok (.array base lower upper) := by
  rw [arrayOf, if_neg (by rw [Int64.not_lt]; exact h)]

/-- Only bounds in order are accepted. -/
theorem arrayOf_eq_ok_iff {base type : DataType} {lower upper : Int64} :
    base.arrayOf lower upper = .ok type ↔ lower ≤ upper ∧ type = .array base lower upper := by
  rw [arrayOf]
  split
  · rename_i h
    simp [Int64.not_le.mpr h]
  · rename_i h
    simp [Int64.not_lt.mp h, eq_comm]

/-- What is no array spelling is read as a leaf. -/
theorem decodeWith_of_leaf {leaf : List Char → DataType} {text : List Char}
    (h : arrayHead? (trim text) = none) : decodeWith leaf text = .ok (leaf (trim text)) := by
  rw [decodeWith]
  split
  · rfl
  · rename_i head heq
    simp [h] at heq

/-- An array spelling is read level by level. -/
theorem decodeWith_of_array {leaf : List Char → DataType} {text : List Char} {head : ArrayHead}
    (h : arrayHead? (trim text) = some head) :
    decodeWith leaf text = (do
      let lower ← readBound head.lower
      let upper ← readBound head.upper
      let base ← decodeWith leaf head.base
      base.arrayOf lower upper) := by
  rw [decodeWith]
  split
  · rename_i heq
    simp [h] at heq
  · rename_i head' heq
    obtain rfl : head = head' := by simpa [h] using heq
    rfl

/-- White space around a spelling does not matter. -/
theorem decodeWith_congr_trim {leaf : List Char → DataType} {text other : List Char}
    (h : trim text = trim other) : decodeWith leaf text = decodeWith leaf other := by
  cases hhead : arrayHead? (trim text) with
  | none => rw [decodeWith_of_leaf hhead, decodeWith_of_leaf (h ▸ hhead), h]
  | some head =>
    have hother : arrayHead? (trim other) = some head := h ▸ hhead
    exact (decodeWith_of_array hhead).trans (decodeWith_of_array hother).symm

/-- The text of an array type is read as an array of what its base is read as, if the base is more
than white space and stays on the line. -/
theorem decodeWith_arrayText {leaf : List Char → DataType} {arrayWord ofWord : String}
    {lower upper : Int64} {base : List Char}
    (harray : sameIgnoringCase "ARRAY".toList arrayWord.toList = true)
    (hof : sameIgnoringCase "OF".toList ofWord.toList = true)
    (hne : trim base ≠ []) (hline : '\n' ∉ trim base) :
    decodeWith leaf (arrayText arrayWord ofWord lower upper base) = (do
      let type ← decodeWith leaf base
      type.arrayOf lower upper) := by
  have hhead := arrayHead?_trim_arrayText lower upper base harray hof
  rw [if_pos ⟨hne, hline⟩] at hhead
  have hbase : decodeWith leaf (trim base) = decodeWith leaf base :=
    decodeWith_congr_trim (isTrimmed_trim base)
  rw [decodeWith_of_array hhead]
  simp only [readBound_showInt64, hbase]
  rfl

end DataType

/-- What follows digits is the end of the text. -/
theorem takeDigits?_suffix {text found rest : List Char} (h : takeDigits? text = some (found, rest)) :
    rest <:+ text := by
  rw [takeDigits?] at h
  split at h
  · simp at h
  · simp only [Option.some.injEq, Prod.mk.injEq] at h
    exact h.2 ▸ List.dropWhile_suffix isDecimalDigit

/-- What follows a bound is the end of the text. -/
theorem takeBound?_suffix {text found rest : List Char} (h : takeBound? text = some (found, rest)) :
    rest <:+ text := by
  unfold takeBound? at h
  split at h
  · obtain ⟨⟨digits, tail⟩, hdigits, heq⟩ := Option.map_eq_some_iff.mp h
    simp only [Prod.mk.injEq] at heq
    exact heq.2 ▸ (takeDigits?_suffix hdigits).trans (List.suffix_cons _ _)
  · exact takeDigits?_suffix h

/-- What follows a literal is the end of the text. -/
theorem after?_suffix {word text rest : List Char} (h : after? word text = some rest) :
    rest <:+ text :=
  ⟨word, (after?_eq_some_iff.mp h).symm⟩

/-- An array spelling holds a bracket. Its base is the end of the text, starts with no white
space and stays on the line. -/
theorem arrayHead?_spec {text : List Char} {head : ArrayHead} (h : arrayHead? text = some head) :
    '[' ∈ text ∧ head.base <:+ text ∧ head.base ≠ [] ∧ '\n' ∉ head.base ∧
      ∀ c ∈ head.base.head?, isSpace c = false := by
  have hdrop (text : List Char) : text.dropWhile isSpace <:+ text := List.dropWhile_suffix isSpace
  simp only [arrayHead?, bind, Option.bind_eq_some_iff] at h
  obtain ⟨t₁, h₁, t₂, h₂, ⟨lower, t₃⟩, h₃, t₄, h₄, ⟨upper, t₅⟩, h₅, t₆, h₆, t₇, h₇, h⟩ := h
  have s₁ := afterIgnoringCase?_suffix h₁
  have s₂ := (after?_suffix h₂).trans ((hdrop t₁).trans s₁)
  have s₃ := (takeBound?_suffix h₃).trans ((hdrop t₂).trans s₂)
  have s₄ := (after?_suffix h₄).trans ((hdrop t₃).trans s₃)
  have s₅ := (takeBound?_suffix h₅).trans ((hdrop t₄).trans s₄)
  have s₆ := (after?_suffix h₆).trans ((hdrop t₅).trans s₅)
  have s₇ := (afterIgnoringCase?_suffix h₇).trans ((hdrop t₆).trans s₆)
  split at h
  · rename_i hbase
    simp only [Option.some.injEq] at h
    subst h
    refine ⟨?_, (hdrop t₇).trans s₇, hbase.2.1, hbase.2.2, fun c hc => head_dropWhile hc⟩
    have hopen : '[' ∈ t₁.dropWhile isSpace := by simp [after?_eq_some_iff.mp h₂]
    exact s₁.subset ((hdrop t₁).subset hopen)
  · simp at h

/-- A text without a bracket is no array spelling. -/
theorem arrayHead?_eq_none {text : List Char} (h : '[' ∉ text) : arrayHead? text = none := by
  rw [Option.eq_none_iff_forall_ne_some]
  exact fun head heq => h (arrayHead?_spec heq).1

/-- The base of a trimmed array spelling is trimmed. -/
theorem isTrimmed_base {text : List Char} {head : ArrayHead} (h : arrayHead? text = some head)
    (htrim : IsTrimmed text) : IsTrimmed head.base := by
  obtain ⟨-, ⟨before, hsplit⟩, hne, -, hhead⟩ := arrayHead?_spec h
  rw [isTrimmed_iff]
  refine ⟨hhead, fun c hc => ((isTrimmed_iff _).mp htrim).2 c ?_⟩
  rw [← hsplit, List.getLast?_append_of_ne_nil _ hne]
  exact hc

/-- The words of a notation are those of the standard in some letter case, and its keywords are
words of letters that its leaves read as the scalar types. -/
structure IsNotation (leaf : List Char → DataType) (keyword : ScalarKind → String)
    (arrayWord ofWord : String) : Prop where
  arrayWord : sameIgnoringCase "ARRAY".toList arrayWord.toList = true
  ofWord : sameIgnoringCase "OF".toList ofWord.toList = true
  nonempty : ∀ kind, (keyword kind).toList ≠ []
  letters : ∀ kind, ∀ c ∈ (keyword kind).toList, c.isAlpha = true
  leaf : ∀ kind, leaf (keyword kind).toList = .scalar kind

/-- A name that is read back as a name. -/
structure IsLeafName (leaf : List Char → DataType) (name : String) : Prop where
  trimmed : IsTrimmed name.toList
  notArray : arrayHead? name.toList = none
  leaf : leaf name.toList = .named name

/-- A name that is read back as a name under an array too. -/
structure IsBaseName (leaf : List Char → DataType) (name : String) : Prop
    extends IsLeafName leaf name where
  nonempty : name.toList ≠ []
  oneLine : '\n' ∉ name.toList

namespace DataType

variable {leaf : List Char → DataType} {keyword : ScalarKind → String} {arrayWord ofWord : String}

/-- A spelling with a name that can stand under an array can stand under an array itself. -/
theorem spellWith_oneLine (h : IsNotation leaf keyword arrayWord ofWord) {type : DataType}
    (hname : type.NameSatisfies (IsBaseName leaf)) :
    IsTrimmed (type.spellWith keyword arrayWord ofWord).toList ∧
      (type.spellWith keyword arrayWord ofWord).toList ≠ [] ∧
      '\n' ∉ (type.spellWith keyword arrayWord ofWord).toList := by
  induction type with
  | scalar kind =>
    have hspace : ∀ c ∈ (keyword kind).toList, isSpace c = false := fun c hc =>
      isSpace_of_isAlpha (h.letters kind c hc)
    refine ⟨?_, h.nonempty kind, fun hmem => absurd (h.letters kind _ hmem) (by decide)⟩
    rw [isTrimmed_iff]
    exact ⟨fun c hc => hspace c (List.mem_of_mem_head? hc),
      fun c hc => hspace c (List.mem_of_getLast? hc)⟩
  | named name => exact ⟨hname.trimmed, hname.nonempty, hname.oneLine⟩
  | array base lower upper ih =>
    obtain ⟨htrim, hne, hline⟩ := ih hname
    rw [toList_spellWith_array]
    refine ⟨isTrimmed_arrayText lower upper h.arrayWord h.ofWord htrim hne, by simp [arrayText], ?_⟩
    have harray : '\n' ∉ arrayWord.toList := fun hmem =>
      absurd (isAlpha_of_sameIgnoringCase h.arrayWord (by decide) _ hmem) (by decide)
    have hof : '\n' ∉ ofWord.toList := fun hmem =>
      absurd (isAlpha_of_sameIgnoringCase h.ofWord (by decide) _ hmem) (by decide)
    have hbound (bound : Int64) : '\n' ∉ (showInt64 bound).toList :=
      notMem_showInt64 (by decide) (by decide) bound
    simp [arrayText, harray, hof, hbound, hline]

/-- An ordered type with a name that can stand under an array reads back from its spelling. -/
theorem decodeWith_spellWith_of_base (h : IsNotation leaf keyword arrayWord ofWord)
    {type : DataType} (hordered : type.IsOrdered) (hname : type.NameSatisfies (IsBaseName leaf)) :
    decodeWith leaf (type.spellWith keyword arrayWord ofWord).toList = .ok type := by
  induction type with
  | scalar kind =>
    have htrim : trim (keyword kind).toList = (keyword kind).toList :=
      (spellWith_oneLine h (show (DataType.scalar kind).NameSatisfies _ from trivial)).1
    have hleaf : arrayHead? (trim (keyword kind).toList) = none := by
      rw [htrim]
      exact arrayHead?_eq_none fun hmem => absurd (h.letters kind _ hmem) (by decide)
    rw [spellWith, decodeWith_of_leaf hleaf, htrim, h.leaf]
  | named name =>
    have htrim : trim name.toList = name.toList := hname.trimmed
    rw [spellWith, decodeWith_of_leaf (by rw [htrim]; exact hname.notArray), htrim, hname.leaf]
  | array base lower upper ih =>
    obtain ⟨htrim, hne, hline⟩ := spellWith_oneLine h (show base.NameSatisfies _ from hname)
    rw [← htrim] at hne hline
    rw [toList_spellWith_array, decodeWith_arrayText h.arrayWord h.ofWord hne hline,
      ih hordered.2 hname]
    exact arrayOf_of_le hordered.1

/-- A spelling is made of letters, digits, the signs of array types and the characters of the
name under them. -/
theorem forall_mem_spellWith {p : Char → Prop} (h : IsNotation leaf keyword arrayWord ofWord)
    (hplain : ∀ c, c.isAlphanum = true ∨ c ∈ ['[', ']', '.', '-', ' '] → p c) {type : DataType}
    (hname : type.NameSatisfies fun name => ∀ c ∈ name.toList, p c) :
    ∀ c ∈ (type.spellWith keyword arrayWord ofWord).toList, p c := by
  have hletter {c : Char} (hc : c.isAlpha = true) : p c :=
    hplain c (Or.inl (by simp [Char.isAlphanum, hc]))
  induction type with
  | scalar kind => exact fun c hc => hletter (h.letters kind c hc)
  | named name => exact hname
  | array base lower upper ih =>
    have hbound {bound : Int64} {c : Char} (hc : c ∈ (showInt64 bound).toList) : p c := by
      rcases of_mem_showInt64 hc with hdigit | rfl
      · exact hplain c (Or.inl (by simp [Char.isAlphanum, hdigit]))
      · exact hplain '-' (Or.inr (by simp))
    have hsign {c : Char} (hc : c ∈ ['[', ']', '.', '-', ' ']) : p c := hplain c (Or.inr hc)
    rw [toList_spellWith_array, arrayText]
    intro c hc
    simp only [List.mem_append, List.mem_cons] at hc
    rcases hc with hc | rfl | hc | rfl | rfl | hc | rfl | rfl | hc | rfl | hc
    · exact hletter (isAlpha_of_sameIgnoringCase h.arrayWord (by decide) c hc)
    · exact hsign (by simp)
    · exact hbound hc
    · exact hsign (by simp)
    · exact hsign (by simp)
    · exact hbound hc
    · exact hsign (by simp)
    · exact hsign (by simp)
    · exact hletter (isAlpha_of_sameIgnoringCase h.ofWord (by decide) c hc)
    · exact hsign (by simp)
    · exact ih hname c hc

/-- The name under all array levels is part of the spelling. -/
theorem nameSatisfies_of_not_occurs {word : List Char} {type : DataType}
    (h : ¬word <:+: (type.spellWith keyword arrayWord ofWord).toList) :
    type.NameSatisfies fun name => ¬word <:+: name.toList := by
  induction type with
  | scalar kind => trivial
  | named name => exact h
  | array base lower upper ih =>
    refine ih fun hoccurs => h (hoccurs.trans ?_)
    rw [toList_spellWith_array, arrayText]
    have hsuffix := List.suffix_append (arrayWord.toList ++ '[' :: ((showInt64 lower).toList ++ '.' ::
      '.' :: ((showInt64 upper).toList ++ ']' :: ' ' :: (ofWord.toList ++ [' ']))))
      (base.spellWith keyword arrayWord ofWord).toList
    simpa using hsuffix.isInfix

/-- A word with an underscore is part of a spelling only if it is part of the name. -/
theorem not_infix_spellWith (h : IsNotation leaf keyword arrayWord ofWord) {word : List Char}
    (hword : '_' ∈ word) (hsign : ∀ c ∈ ['[', ']', '.', ' '], c ∉ word) {type : DataType}
    (hname : type.NameSatisfies fun name => ¬word <:+: name.toList) :
    ¬word <:+: (type.spellWith keyword arrayWord ofWord).toList := by
  have hletters {text : List Char} (htext : ∀ c ∈ text, c.isAlpha = true) : ¬word <:+: text :=
    not_infix_of_notMem hword fun hmem => absurd (htext _ hmem) (by decide)
  induction type with
  | scalar kind => exact hletters (h.letters kind)
  | named name => exact hname
  | array base lower upper ih =>
    have hne : word ≠ [] := List.ne_nil_of_mem hword
    have hbound (bound : Int64) : ¬word <:+: (showInt64 bound).toList :=
      not_infix_of_notMem hword (notMem_showInt64 (by decide) (by decide) bound)
    rw [toList_spellWith_array, arrayText, infix_append_cons_iff (hsign '[' (by simp)),
      infix_append_cons_iff (hsign '.' (by simp)), infix_cons_iff_of_notMem hne (hsign '.' (by simp)),
      infix_append_cons_iff (hsign ']' (by simp)), infix_cons_iff_of_notMem hne (hsign ' ' (by simp)),
      infix_append_cons_iff (hsign ' ' (by simp))]
    intro hoccurs
    rcases hoccurs with hoccurs | hoccurs | hoccurs | hoccurs | hoccurs
    · exact hletters (isAlpha_of_sameIgnoringCase h.arrayWord (by decide)) hoccurs
    · exact hbound lower hoccurs
    · exact hbound upper hoccurs
    · exact hletters (isAlpha_of_sameIgnoringCase h.ofWord (by decide)) hoccurs
    · exact ih hname hoccurs

/-- An array level is spelled canonically around the canonical spelling of the base. -/
theorem toList_spelling_array (base : DataType) (lower upper : Int64) :
    (array base lower upper).spelling.toList =
      arrayText "ARRAY" "OF" lower upper base.spelling.toList :=
  toList_spellWith_array ScalarKind.keyword "ARRAY" "OF" base lower upper

/-- The canonical words are a notation. -/
theorem isNotation_canonical : IsNotation canonicalLeaf ScalarKind.keyword "ARRAY" "OF" where
  arrayWord := by decide
  ofWord := by decide
  nonempty kind := by cases kind <;> decide
  letters kind := by cases kind <;> decide
  leaf kind := by cases kind <;> decide

end DataType

end PlcTypes
