import PlcTypes.DataType
import PlcTypes.Proofs.Text.Ascii
import PlcTypes.Proofs.Text.PatternSteps

/-!
# The pattern of an array spelling

A trimmed spelling is an array spelling if one pattern matches it from its start to its end. White
space is taken as far as it goes, and so are digits, since what follows them starts with neither. The
base is the rest of the text: it ends with no white space, so the white space before it ends too.
-/

namespace PlcTypes

open Text Pattern

/-- The parts of an array spelling that have names. -/
inductive ArrayPart where
  | lower
  | upper
  | base
  deriving DecidableEq, Repr

/-- White space, as much as there is. -/
def spaces : Pattern ArrayPart := many true (one isSpace)

/-- A word in any letter case. -/
def letters (word : String) : Pattern ArrayPart :=
  all (word.toList.map fun w => one fun c => w.toLower == c.toLower)

/-- Digits of any script with an optional minus sign. -/
def boundPattern : Pattern ArrayPart :=
  seq (optional (char '-')) (seq (one isDecimalDigit) (many true (one isDecimalDigit)))

/-- The rest of a line, if it is more than nothing. -/
def restPattern : Pattern ArrayPart := seq (one (· != '\n')) (many true (one (· != '\n')))

/-- An array spelling from its start to its end: the word for arrays, two bounds in brackets with two
dots between them, the word before the base type, white space and the base. -/
def arrayPattern : Pattern ArrayPart :=
  all [textStart, letters "ARRAY", spaces, char '[', spaces, part .lower boundPattern, spaces,
    char '.', char '.', spaces, part .upper boundPattern, spaces, char ']', spaces, letters "OF",
    one isSpace, spaces, part .base restPattern, textEnd]

/-- The parts that a head of an array spelling names. -/
def ArrayHead.parts (head : ArrayHead) : List (ArrayPart × List Char) :=
  [(.lower, head.lower), (.upper, head.upper), (.base, head.base)]

/-- White space is no digit of any script. -/
theorem isDecimalDigit_of_isSpace {c : Char} (h : isSpace c = true) : isDecimalDigit c = false := by
  have hcode : c.toNat ∈ [9, 10, 11, 12, 13, 0x20, 0x85, 0xA0, 0x1680, 0x2000, 0x2001, 0x2002, 0x2003,
      0x2004, 0x2005, 0x2006, 0x2007, 0x2008, 0x2009, 0x200A, 0x2028, 0x2029, 0x202F, 0x205F,
      0x3000] := by
    simp only [isSpace, Bool.or_eq_true, Bool.and_eq_true, beq_iff_eq, decide_eq_true_eq] at h
    simp only [List.mem_cons, List.not_mem_nil, or_false]
    omega
  have hranges : inRanges decimalDigitRanges c.toNat = false := by
    generalize c.toNat = n at hcode
    revert n
    decide
  have hdigit : c.isDigit = false := by
    by_contra hd
    rw [Bool.not_eq_false] at hd
    simp [isSpace_of_isDigit hd] at h
  rw [isDecimalDigit, hdigit, hranges, Bool.and_false, Bool.or_false]

section Space

variable {c : Char} {rest : List Char}

/-- A literal is recognised character by character. -/
theorem after?_cons (w : Char) (word text : List Char) :
    after? (w :: word) text = (after? [w] text).bind (after? word) := by
  cases text with
  | nil => rfl
  | cons d tail =>
    rw [after?, after?]
    split <;> rfl

/-- White space is no digit of any script. -/
theorem isSpace_of_isDecimalDigit (h : isDecimalDigit c = true) : isSpace c = false := by
  by_contra hspace
  rw [Bool.not_eq_false] at hspace
  rw [isDecimalDigit_of_isSpace hspace] at h
  exact Bool.false_ne_true h

/-- A literal that starts with no white space does not start with white space. -/
theorem after?_of_isSpace {w : Char} (word : List Char) (hw : isSpace w = false)
    (hc : isSpace c = true) : after? (w :: word) (c :: rest) = none := by
  refine after?_cons_of_ne word rest ?_
  rintro rfl
  rw [hw] at hc
  exact Bool.false_ne_true hc

/-- A word of letters does not start with white space. -/
theorem afterIgnoringCase?_of_isSpace {w : Char} (word : List Char) (hw : w.isAlpha = true)
    (hc : isSpace c = true) : afterIgnoringCase? (w :: word) (c :: rest) = none := by
  rw [afterIgnoringCase?, if_neg]
  intro hsame
  have hletter : sameIgnoringCase [w] [c] = true := by
    simpa [sameIgnoringCase] using hsame
  have halpha := isAlpha_of_sameIgnoringCase hletter (by simpa using hw) c List.mem_cons_self
  rw [isSpace_of_isAlpha halpha] at hc
  exact Bool.false_ne_true hc

/-- A bound does not start with white space. -/
theorem takeBound?_of_isSpace (hc : isSpace c = true) : takeBound? (c :: rest) = none := by
  rw [takeBound?, takeDigits?, List.takeWhile_cons_of_neg (by simp [isDecimalDigit_of_isSpace hc])]
  intro text heq
  rw [(List.cons.inj heq).1] at hc
  exact absurd hc (by decide)

/-- A literal is not recognised at a digit. -/
theorem after?_dropWhile_of_isDecimalDigit {w : Char} (word : List Char)
    (hw : isDecimalDigit w = false) (hc : isDecimalDigit c = true) :
    after? (w :: word) ((c :: rest).dropWhile isSpace) = none := by
  rw [List.dropWhile_cons_of_neg (by simp [isSpace_of_isDecimalDigit hc])]
  refine after?_cons_of_ne word rest ?_
  rintro rfl
  rw [hw] at hc
  exact Bool.false_ne_true hc

end Space

/-- A pattern finds these parts at every place of a text. -/
def FindsIn (whole : List Char) (q : Pattern ArrayPart)
    (found : List Char → Option (List (ArrayPart × List Char))) : Prop :=
  ∀ previous text, text <:+ whole → q.parts? previous text = found text

namespace FindsIn

variable {whole : List Char} {q : Pattern ArrayPart}
  {found : List Char → Option (List (ArrayPart × List Char))}

/-- A character in front of a pattern. -/
theorem char (h : FindsIn whole q found) (c : Char) :
    FindsIn whole (seq (.char c) q) fun text => (after? [c] text).bind found := by
  intro previous text hsuffix
  rw [parts?_seq_char]
  refine Option.bind_congr fun rest hrest => h _ _ (List.IsSuffix.trans ?_ hsuffix)
  rw [after?_eq_some_iff.mp hrest]
  exact List.suffix_append [c] rest

/-- White space in front of a pattern that finds something behind it whenever it does before its last
character. -/
theorem spaces (h : FindsIn whole q found) (hlonger : ∀ c rest, c :: rest <:+ whole →
      isSpace c = true → found rest = none → found (c :: rest) = none) :
    FindsIn whole (seq spaces q) fun text => found (text.dropWhile isSpace) := by
  intro previous text hsuffix
  beta_reduce
  rw [PlcTypes.spaces, parts?_seq_run, h _ _ ((List.dropWhile_suffix isSpace).trans hsuffix)]
  intro previous c rest hrest hc hnone
  have hwhole := hrest.trans hsuffix
  rw [h _ _ ((List.suffix_cons c rest).trans hwhole)] at hnone
  rw [h _ _ hwhole, hlonger c rest hwhole hc hnone]

/-- A word in some letter case in front of a pattern. -/
theorem letters (h : FindsIn whole q found) (word : String) :
    FindsIn whole (seq (letters word) q) fun text =>
      (afterIgnoringCase? word.toList text).bind found := by
  intro previous text hsuffix
  beta_reduce
  rw [PlcTypes.letters, parts?_seq_all]
  generalize word.toList = word
  induction word generalizing previous text with
  | nil => exact h previous text hsuffix
  | cons w word ih =>
    rw [List.map_cons, List.foldr, parts?_seq rfl]
    cases text with
    | nil =>
      rw [takenBefore?_one_nil]
      rfl
    | cons c rest =>
      rw [takenBefore?_one_cons, afterIgnoringCase?]
      split
      · rw [ih _ _ ((List.suffix_cons c rest).trans hsuffix)]
        cases (afterIgnoringCase? word rest).bind found <;> rfl
      · rfl

/-- Digits in front of a pattern that takes none. -/
theorem takenBefore?_digits (h : FindsIn whole q found)
    (hdigit : ∀ c rest, isDecimalDigit c = true → found (c :: rest) = none) {text : List Char}
    (hsuffix : text <:+ whole) (previous : Option Char) :
    (seq (one isDecimalDigit) (many true (one isDecimalDigit)) : Pattern ArrayPart).takenBefore?
        q.parts? previous text =
      (takeDigits? text).bind fun (digits, rest) => (found rest).map (digits, ·) := by
  cases text with
  | nil => exact takenBefore?_seq_one_nil
  | cons c rest =>
    by_cases hc : isDecimalDigit c = true
    · have hrest : rest <:+ whole := (List.suffix_cons c rest).trans hsuffix
      have hlonger (previous : Option Char) (d : Char) (tail : List Char) (htail : d :: tail <:+ rest)
          (hd : isDecimalDigit d = true) (_ : q.parts? (some d) tail = none) :
          q.parts? previous (d :: tail) = none := by
        rw [h _ _ (htail.trans hrest), hdigit d tail hd]
      rw [takenBefore?_seq_one_cons hc, takenBefore?_run hlonger,
        h _ _ ((List.dropWhile_suffix isDecimalDigit).trans hrest), takeDigits?,
        List.takeWhile_cons_of_pos hc, List.dropWhile_cons_of_pos hc, Option.map_map]
      rfl
    · rw [takenBefore?_seq_one_of_reject (by simpa using hc), takeDigits?,
        List.takeWhile_cons_of_neg hc]
      rfl

/-- A bound in front of a pattern that takes no digit. -/
theorem bound (h : FindsIn whole q found)
    (hdigit : ∀ c rest, isDecimalDigit c = true → found (c :: rest) = none) (name : ArrayPart) :
    FindsIn whole (seq (part name boundPattern) q) fun text =>
      (takeBound? text).bind fun (bound, rest) => (found rest).map ((name, bound) :: ·) := by
  intro previous text hsuffix
  beta_reduce
  rw [parts?_seq_part rfl, boundPattern, Pattern.optional, takenBefore?_seq, takenBefore?_or,
    takenBefore?_nothing, h.takenBefore?_digits hdigit hsuffix]
  cases text with
  | nil => rfl
  | cons c rest =>
    by_cases hc : c = '-'
    · have hminus : takeDigits? (c :: rest) = none := by
        rw [hc, takeDigits?, List.takeWhile_cons_of_neg (by decide)]
      rw [hminus, Pattern.char, takenBefore?_one_cons, if_pos (by simp [hc]),
        h.takenBefore?_digits hdigit ((List.suffix_cons c rest).trans hsuffix), hc, takeBound?]
      cases takeDigits? rest with
      | none => rfl
      | some taken =>
        simp only [Option.bind_some, Option.map_some, Option.map_map, Option.bind_none,
          Option.map_none, Option.or_none]
        rfl
    · have hbound : takeBound? (c :: rest) = takeDigits? (c :: rest) := by
        rw [takeBound?]
        intro tail heq
        exact hc (List.cons.inj heq).1
      rw [hbound, Pattern.char, takenBefore?_one_cons, if_neg (by simpa using hc), Option.none_or]
      cases takeDigits? (c :: rest) with
      | none => rfl
      | some taken =>
        simp only [Option.bind_some, Option.map_map]
        rfl

end FindsIn

/-- The base of an array spelling: what follows white space on the rest of the line. -/
def base? (text : List Char) : Option (List Char) :=
  let base := text.dropWhile isSpace
  if base.length < text.length ∧ base ≠ [] ∧ '\n' ∉ base then some base else none

/-- The base of an array spelling whose upper bound has been read. -/
def upperTail? (text : List Char) : Option (List Char) :=
  (after? [']'] (text.dropWhile isSpace)).bind fun text =>
    (afterIgnoringCase? "OF".toList (text.dropWhile isSpace)).bind base?

/-- The upper bound and the base of an array spelling whose lower bound has been read. -/
def lowerTail? (text : List Char) : Option (List Char × List Char) :=
  (after? ['.', '.'] (text.dropWhile isSpace)).bind fun text =>
    (takeBound? (text.dropWhile isSpace)).bind fun (upper, text) =>
      (upperTail? text).map fun base => (upper, base)

/-- The head of an array spelling is read up to each bound and then behind it. -/
theorem arrayHead?_eq (text : List Char) : arrayHead? text =
    (afterIgnoringCase? "ARRAY".toList text).bind fun text =>
      (after? ['['] (text.dropWhile isSpace)).bind fun text =>
        (takeBound? (text.dropWhile isSpace)).bind fun (lower, text) =>
          (lowerTail? text).map fun (upper, base) => ⟨lower, upper, base⟩ := by
  simp only [arrayHead?, lowerTail?, upperTail?, base?, bind, Option.map_bind, Function.comp_def,
    apply_ite (Option.map _), Option.map_some, Option.map_none]

/-- The rest of a text is on one line if it is matched. -/
theorem parts?_restPattern {previous : Option Char} (text : List Char) :
    (seq (part .base restPattern) (seq textEnd nothing)).parts? previous text =
      if text ≠ [] ∧ '\n' ∉ text then some [(.base, text)] else none := by
  have hend (previous : Option Char) (rest : List Char) :
      (seq textEnd nothing : Pattern ArrayPart).parts? previous rest =
        if rest = [] then some [] else none := by
    cases rest <;> rfl
  rw [parts?_seq_part rfl, restPattern]
  cases text with
  | nil =>
    rw [takenBefore?_seq_one_nil]
    rfl
  | cons c rest =>
    by_cases hc : c = '\n'
    · rw [takenBefore?_seq_one_of_reject (by simp [hc]), if_neg (by simp [hc])]
      rfl
    · rw [takenBefore?_seq_one_cons (by simp [hc]), takenBefore?_run, hend]
      · have hrest : rest.dropWhile (· != '\n') = [] ↔ '\n' ∉ rest := by
          rw [List.dropWhile_eq_nil_iff]
          exact ⟨fun h hmem => absurd (h _ hmem) (by decide),
            fun h d hd => bne_iff_ne.mpr fun heq => h (heq ▸ hd)⟩
        by_cases hfeed : '\n' ∉ rest
        · have htake : rest.takeWhile (· != '\n') = rest := by
            have hsplit := List.takeWhile_append_dropWhile (p := (· != '\n')) (l := rest)
            rwa [hrest.mpr hfeed, List.append_nil] at hsplit
          rw [if_pos (hrest.mpr hfeed), htake, if_pos]
          · rfl
          · exact ⟨List.cons_ne_nil c rest, by simp [Ne.symm hc, hfeed]⟩
        · rw [if_neg fun h => hfeed (hrest.mp h), if_neg]
          · rfl
          · exact fun h => hfeed fun hmem => h.2 (List.mem_cons_of_mem c hmem)
      · intro previous d tail _ _ _
        rw [hend, if_neg (List.cons_ne_nil d tail)]

/-- The end of a text ends as the text does. -/
theorem getLast?_of_suffix {whole text : List Char} {c : Char} (hsuffix : text <:+ whole)
    (h : text.getLast? = some c) : whole.getLast? = some c := by
  obtain ⟨before, rfl⟩ := hsuffix
  rw [List.getLast?_append, h]
  rfl

/-- The base stands behind all white space, if the text does not end with white space. -/
theorem findsIn_base {whole : List Char} (hlast : ∀ c ∈ whole.getLast?, isSpace c = false) :
    FindsIn whole (seq (one isSpace) (seq spaces (seq (part .base restPattern)
      (seq textEnd nothing)))) fun text => (base? text).map fun base => [(.base, base)] := by
  have hrest : FindsIn whole (seq (part .base restPattern) (seq textEnd nothing)) fun text =>
      if text ≠ [] ∧ '\n' ∉ text then some [(.base, text)] else none :=
    fun _ text _ => parts?_restPattern text
  intro previous text hsuffix
  beta_reduce
  rw [parts?_seq rfl]
  cases text with
  | nil =>
    rw [takenBefore?_one_nil]
    rfl
  | cons c rest =>
    rw [takenBefore?_one_cons]
    by_cases hc : isSpace c = true
    · rw [if_pos hc, hrest.spaces _ _ _ ((List.suffix_cons c rest).trans hsuffix)]
      · have hlength : (rest.dropWhile isSpace).length < (c :: rest).length :=
          Nat.lt_succ_of_le (List.dropWhile_suffix isSpace).length_le
        rw [base?, List.dropWhile_cons_of_pos hc]
        simp only [hlength, true_and]
        split <;> rfl
      · -- The text does not end with white space, so something on the line follows it or nothing does.
        intro d tail htail hd hnone
        have hmore : tail ≠ [] := by
          rintro rfl
          rw [hlast d (getLast?_of_suffix htail rfl)] at hd
          exact Bool.false_ne_true hd
        rw [ite_eq_right_iff] at hnone
        rw [if_neg]
        rintro ⟨-, hfeed⟩
        exact Option.some_ne_none _
          (hnone ⟨hmore, fun hmem => hfeed (List.mem_cons_of_mem d hmem)⟩)
    · rw [if_neg hc, base?, List.dropWhile_cons_of_neg hc, if_neg (fun h => lt_irrefl _ h.1)]
      rfl

/-- What follows the upper bound. -/
def upperTail : Pattern ArrayPart :=
  all [spaces, char ']', spaces, letters "OF", one isSpace, spaces, part .base restPattern, textEnd]

/-- What follows the lower bound. -/
def lowerTail : Pattern ArrayPart :=
  seq spaces (seq (char '.') (seq (char '.') (seq spaces (seq (part .upper boundPattern) upperTail))))

section Trimmed

variable {whole : List Char}

/-- Behind the upper bound the base is found. -/
theorem findsIn_upperTail (hlast : ∀ c ∈ whole.getLast?, isSpace c = false) :
    FindsIn whole upperTail fun text => (upperTail? text).map fun base => [(.base, base)] := by
  have hof := ((findsIn_base hlast).letters "OF").spaces fun c rest _ hc _ =>
    congrArg (Option.bind · _) (afterIgnoringCase?_of_isSpace ['F'] (by decide) hc)
  have htail := (hof.char ']').spaces fun c rest _ hc _ =>
    congrArg (Option.bind · _) (after?_of_isSpace [] (by decide) hc)
  intro previous text hsuffix
  refine (htail previous text hsuffix).trans ?_
  simp only [upperTail?, Option.map_bind, Function.comp_def]

/-- Behind the lower bound the upper one and the base are found. -/
theorem findsIn_lowerTail (hlast : ∀ c ∈ whole.getLast?, isSpace c = false) :
    FindsIn whole lowerTail fun text =>
      (lowerTail? text).map fun (upper, base) => [(.upper, upper), (.base, base)] := by
  have hupper := ((findsIn_upperTail hlast).bound (fun c rest hc => by
    rw [upperTail?, after?_dropWhile_of_isDecimalDigit [] (by decide) hc]
    rfl) .upper).spaces fun c rest _ hc _ =>
      congrArg (Option.bind · _) (takeBound?_of_isSpace hc)
  have htail := ((hupper.char '.').char '.').spaces fun c rest _ hc _ =>
    congrArg (Option.bind · _) (after?_of_isSpace [] (by decide) hc)
  intro previous text hsuffix
  refine (htail previous text hsuffix).trans ?_
  simp only [lowerTail?, after?_cons '.' ['.'], Option.bind_assoc, Option.map_bind, Option.map_map,
    Function.comp_def]

end Trimmed

/-- A trimmed text is an array spelling if the pattern matches it, and its head has the named parts. -/
theorem parts?_arrayPattern {text : List Char} (htrim : IsTrimmed text) :
    arrayPattern.parts? none text = (arrayHead? text).map ArrayHead.parts := by
  have hpattern : arrayPattern.parts? none text = (seq (letters "ARRAY") (seq spaces (seq (char '[')
      (seq spaces (seq (part .lower boundPattern) lowerTail))))).parts? none text :=
    parts?_seq_of_empty rfl
  have hlower := ((findsIn_lowerTail ((isTrimmed_iff text).mp htrim).2).bound (fun c rest hc => by
    rw [lowerTail?, after?_dropWhile_of_isDecimalDigit ['.'] (by decide) hc]
    rfl) .lower).spaces fun c rest _ hc _ =>
      congrArg (Option.bind · _) (takeBound?_of_isSpace hc)
  have hhead := ((hlower.char '[').spaces fun c rest _ hc _ =>
    congrArg (Option.bind · _) (after?_of_isSpace [] (by decide) hc)).letters "ARRAY"
  rw [hpattern, hhead none text List.suffix_rfl, arrayHead?_eq]
  simp only [Option.map_bind, Option.map_map, Function.comp_def, ArrayHead.parts]

end PlcTypes
