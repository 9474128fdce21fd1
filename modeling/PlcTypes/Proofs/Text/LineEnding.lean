import PlcTypes.Proofs.Text.Search
import PlcTypes.Proofs.Text.Space
import PlcTypes.Text.Ascii
import PlcTypes.Text.Word

/-!
# Carriage returns in front of line feeds

Putting a carriage return in front of every line feed commutes with the searches and scans whose words
hold neither of the two and which treat them alike. A recogniser that commutes with it and starts at
none of the two accepts at the same places of a text before and after.
-/

namespace PlcTypes.Text

/-- Put a carriage return in front of every line feed. -/
def withReturns (text : List Char) : List Char :=
  text.flatMap fun c => if c = '\n' then ['\r', '\n'] else [c]

/-- Texts are built from line feeds and other characters. -/
@[elab_as_elim] theorem lineFeed_induction {motive : List Char → Prop} (text : List Char)
    (nil : motive []) (lineFeed : ∀ text, motive text → motive ('\n' :: text))
    (other : ∀ c text, c ≠ '\n' → motive text → motive (c :: text)) : motive text := by
  induction text with
  | nil => exact nil
  | cons c text ih =>
    by_cases hc : c = '\n'
    · exact hc ▸ lineFeed text ih
    · exact other c text hc ih

variable {c : Char} {text word : List Char}

/-- There is nothing to put in front of in an empty text. -/
@[simp] theorem withReturns_nil : withReturns [] = [] := rfl

/-- A line feed gets a carriage return in front. -/
@[simp] theorem withReturns_lineFeed (text : List Char) :
    withReturns ('\n' :: text) = '\r' :: '\n' :: withReturns text := rfl

/-- Any other character stays. -/
theorem withReturns_cons (text : List Char) (h : c ≠ '\n') :
    withReturns (c :: text) = c :: withReturns text := by
  rw [withReturns, List.flatMap_cons, if_neg h]
  rfl

/-- The parts of a text get their carriage returns one by one. -/
theorem withReturns_append (text rest : List Char) :
    withReturns (text ++ rest) = withReturns text ++ withReturns rest := List.flatMap_append

/-- A text on one line stays. -/
theorem withReturns_of_notMem (h : '\n' ∉ text) : withReturns text = text := by
  induction text with
  | nil => rfl
  | cons c text ih =>
    rw [List.mem_cons, not_or] at h
    rw [withReturns_cons text (Ne.symm h.1), ih h.2]

/-- Only an empty text becomes empty. -/
theorem withReturns_eq_nil_iff : withReturns text = [] ↔ text = [] := by
  induction text using lineFeed_induction with
  | nil => simp
  | lineFeed text ih => simp
  | other c text hc ih => simp [withReturns_cons text hc]

/-- A word without line ends is found at the front of a text before and after. -/
theorem after?_withReturns (hfeed : '\n' ∉ word) (hreturn : '\r' ∉ word) (text : List Char) :
    after? word (withReturns text) = (after? word text).map withReturns := by
  induction word generalizing text with
  | nil => rfl
  | cons w word ih =>
    rw [List.mem_cons, not_or] at hfeed hreturn
    cases text using lineFeed_induction with
    | nil => rfl
    | lineFeed text ih =>
      rw [withReturns_lineFeed, after?_cons_of_ne _ _ (Ne.symm hreturn.1),
        after?_cons_of_ne _ _ (Ne.symm hfeed.1), Option.map_none]
    | other c text hc _ =>
      rw [withReturns_cons text hc, after?, after?]
      split
      · exact ih hfeed.2 hreturn.2 text
      · rfl

/-- A word without line ends cuts a text at the same place before and after. -/
theorem cut?_withReturns (hne : word ≠ []) (hfeed : '\n' ∉ word) (hreturn : '\r' ∉ word)
    (text : List Char) : cut? word (withReturns text) =
      (cut? word text).map fun (before, tail) => (withReturns before, withReturns tail) := by
  induction text using lineFeed_induction with
  | nil => simp [cut?, hne]
  | lineFeed text ih =>
    rw [withReturns_lineFeed, cut?, after?_eq_none_of_notMem _ hne hreturn, cut?,
      after?_eq_none_of_notMem _ hne hfeed, ih, cut?, after?_eq_none_of_notMem _ hne hfeed]
    cases cut? word text <;> rfl
  | other c text hc ih =>
    have hstart := after?_withReturns hfeed hreturn (c :: text)
    rw [withReturns_cons text hc] at hstart ⊢
    rw [cut?, cut?, hstart]
    cases after? word (c :: text) with
    | some tail => rfl
    | none =>
      rw [Option.map_none]
      dsimp only
      rw [ih]
      cases cut? word text with
      | none => rfl
      | some parts => simp only [Option.map_some, withReturns_cons _ hc]

/-- Marks without line ends stand around the same text before and after. -/
theorem between?_withReturns {opening closing : List Char} (hne : opening ≠ [] ∧ closing ≠ [])
    (hfeed : '\n' ∉ opening ++ closing) (hreturn : '\r' ∉ opening ++ closing) (text : List Char) :
    between? opening closing (withReturns text) = (between? opening closing text).map withReturns := by
  rw [List.mem_append, not_or] at hfeed hreturn
  rw [between?, between?, cut?_withReturns hne.1 hfeed.1 hreturn.1]
  cases cut? opening text with
  | none => rfl
  | some parts =>
    obtain ⟨before, tail⟩ := parts
    rw [Option.map_some, Option.bind_some, Option.bind_some]
    dsimp only
    rw [cut?_withReturns hne.2 hfeed.2 hreturn.2]
    cases cut? closing tail <;> rfl

/-- A run that takes both line ends or none is dropped before and after. -/
theorem dropWhile_withReturns {p : Char → Bool} (h : p '\r' = p '\n') (text : List Char) :
    (withReturns text).dropWhile p = withReturns (text.dropWhile p) := by
  induction text using lineFeed_induction with
  | nil => rfl
  | lineFeed text ih =>
    by_cases hp : p '\n' = true
    · rw [withReturns_lineFeed, List.dropWhile_cons_of_pos (h.trans hp), List.dropWhile_cons_of_pos hp,
        List.dropWhile_cons_of_pos hp, ih]
    · rw [withReturns_lineFeed, List.dropWhile_cons_of_neg (h ▸ hp), List.dropWhile_cons_of_neg hp,
        withReturns_lineFeed]
  | other c text hc ih =>
    rw [withReturns_cons text hc]
    by_cases hp : p c = true
    · rw [List.dropWhile_cons_of_pos hp, List.dropWhile_cons_of_pos hp, ih]
    · rw [List.dropWhile_cons_of_neg hp, List.dropWhile_cons_of_neg hp, withReturns_cons text hc]

/-- A run that ends at both line ends is the same before and after. -/
theorem takeWhile_withReturns {p : Char → Bool} (hreturn : p '\r' = false) (hfeed : p '\n' = false)
    (text : List Char) : (withReturns text).takeWhile p = text.takeWhile p := by
  induction text using lineFeed_induction with
  | nil => rfl
  | lineFeed text ih =>
    rw [withReturns_lineFeed, List.takeWhile_cons_of_neg (by simp [hreturn]),
      List.takeWhile_cons_of_neg (by simp [hfeed])]
  | other c text hc ih =>
    rw [withReturns_cons text hc]
    by_cases hp : p c = true
    · rw [List.takeWhile_cons_of_pos hp, List.takeWhile_cons_of_pos hp, ih]
    · rw [List.takeWhile_cons_of_neg hp, List.takeWhile_cons_of_neg hp]

/-- A character in front of something that is kept is kept. -/
theorem dropEndWhile_cons_of_ne_nil {p : Char → Bool} (c : Char) (h : dropEndWhile p text ≠ []) :
    dropEndWhile p (c :: text) = c :: dropEndWhile p text := by
  rw [dropEndWhile]
  split
  · rename_i hnil
    exact absurd hnil h
  · rfl

/-- A character in front of nothing that is kept decides for itself. -/
theorem dropEndWhile_cons_of_eq_nil {p : Char → Bool} (c : Char) (h : dropEndWhile p text = []) :
    dropEndWhile p (c :: text) = if p c then [] else [c] := by
  rw [dropEndWhile, h]

/-- A final run that takes both line ends or none is dropped before and after. -/
theorem dropEndWhile_withReturns {p : Char → Bool} (h : p '\r' = p '\n') (text : List Char) :
    dropEndWhile p (withReturns text) = withReturns (dropEndWhile p text) := by
  induction text using lineFeed_induction with
  | nil => rfl
  | lineFeed text ih =>
    rw [withReturns_lineFeed]
    by_cases hnil : dropEndWhile p text = []
    · have hfeed := dropEndWhile_cons_of_eq_nil '\n' (ih.trans (withReturns_eq_nil_iff.mpr hnil))
      rw [dropEndWhile, hfeed, dropEndWhile_cons_of_eq_nil '\n' hnil]
      by_cases hp : p '\n' = true
      · simp [h, hp]
      · simp [hp]
    · have hkept : dropEndWhile p (withReturns text) ≠ [] := by rwa [ih, ne_eq, withReturns_eq_nil_iff]
      have hfeed := dropEndWhile_cons_of_ne_nil '\n' hkept
      rw [dropEndWhile_cons_of_ne_nil _ (hfeed ▸ List.cons_ne_nil _ _), hfeed, ih,
        dropEndWhile_cons_of_ne_nil '\n' hnil, withReturns_lineFeed]
  | other c text hc ih =>
    rw [withReturns_cons text hc]
    by_cases hnil : dropEndWhile p text = []
    · rw [dropEndWhile_cons_of_eq_nil c (ih.trans (withReturns_eq_nil_iff.mpr hnil)),
        dropEndWhile_cons_of_eq_nil c hnil]
      split
      · rfl
      · rw [withReturns_cons _ hc, withReturns_nil]
    · have hkept : dropEndWhile p (withReturns text) ≠ [] := by rwa [ih, ne_eq, withReturns_eq_nil_iff]
      rw [dropEndWhile_cons_of_ne_nil c hkept, ih, dropEndWhile_cons_of_ne_nil c hnil, withReturns_cons _ hc]

/-- White space is removed at both ends before and after. -/
theorem trim_withReturns (text : List Char) : trim (withReturns text) = withReturns (trim text) := by
  have h : isSpace '\r' = isSpace '\n' := by decide
  rw [trim, dropWhile_withReturns h, dropEndWhile_withReturns h, trim]

/-- The words of a text do not depend on its line ends. -/
theorem firstWord_withReturns (text : List Char) : firstWord (withReturns text) = firstWord text := by
  induction text using lineFeed_induction with
  | nil => rfl
  | lineFeed text ih =>
    have hfeed : isSpace '\n' = true := by decide
    have hreturn : isSpace '\r' = true := by decide
    rw [withReturns_lineFeed, firstWord, firstWord, ih, firstWord]
    simp only [hfeed, hreturn, if_true]
    rfl
  | other c text hc ih =>
    rw [withReturns_cons text hc, firstWord, ih, firstWord]

/-- A text is folded onto the same line whatever its line ends. -/
theorem foldLine_withReturns (text : List Char) : foldLine (withReturns text) = foldLine text := by
  rw [foldLine, words, firstWord_withReturns, foldLine, words]

/-- A text starts with white space before and after. -/
theorem startsWithSpace_withReturns (text : List Char) :
    startsWithSpace (withReturns text) = startsWithSpace text := by
  cases text using lineFeed_induction with
  | nil => rfl
  | lineFeed text _ => rfl
  | other c text hc _ =>
    rw [withReturns_cons text hc]
    rfl

/-- No word goes on at the front of a text before and after. -/
theorem startsOutsideWord_withReturns (text : List Char) :
    startsOutsideWord (withReturns text) = startsOutsideWord text := by
  cases text using lineFeed_induction with
  | nil => rfl
  | lineFeed text _ => rfl
  | other c text hc _ =>
    rw [withReturns_cons text hc]
    rfl

/-- An identifier stands at the front of a text before and after. -/
theorem takeIdentifier?_withReturns (text : List Char) : takeIdentifier? (withReturns text) =
    (takeIdentifier? text).map fun (name, rest) => (name, withReturns rest) := by
  have hfeed : isNameChar '\n' = false := by decide
  have hreturn : isNameChar '\r' = false := by decide
  cases text using lineFeed_induction with
  | nil => rfl
  | lineFeed text _ => rfl
  | other c text hc _ =>
    rw [withReturns_cons text hc, takeIdentifier?, takeIdentifier?, takeWhile_withReturns hreturn hfeed,
      dropWhile_withReturns (hreturn.trans hfeed.symm)]
    split <;> rfl

/-- A keyword stands at the front of a text before and after. -/
theorem keywordAfter?_withReturns (hfeed : '\n' ∉ word) (hreturn : '\r' ∉ word)
    (previous : Option Char) (text : List Char) : keywordAfter? previous word (withReturns text) =
      (keywordAfter? previous word text).map withReturns := by
  rw [keywordAfter?, keywordAfter?, after?_withReturns hfeed hreturn]
  split <;> rfl

/-- A keyword starts at no line end. -/
theorem keywordAfter?_lineEnd (hne : word ≠ []) (hfeed : '\n' ∉ word) (hreturn : '\r' ∉ word)
    (hc : c ∈ ['\r', '\n']) (previous : Option Char) (text : List Char) :
    keywordAfter? previous word (c :: text) = none := by
  have hstart : after? word (c :: text) = none := by
    rcases List.mem_pair.mp hc with rfl | rfl
    · exact after?_eq_none_of_notMem text hne hreturn
    · exact after?_eq_none_of_notMem text hne hfeed
  rw [keywordAfter?, hstart, ite_self]

section Find

variable {α : Type} {recognise : Option Char → List Char → Option (α × List Char)} {f : α → α}

/-- A recogniser that reads on before and after, and starts at no line end, accepts at the same places
before and after. -/
theorem find?_withReturns
    (hrecognise : ∀ previous text, recognise previous (withReturns text) =
      (recognise previous text).map fun (found, rest) => (f found, withReturns rest))
    (hstart : ∀ c ∈ ['\r', '\n'], ∀ previous text, recognise previous (c :: text) = none)
    (previous : Option Char) (text : List Char) : find? recognise previous (withReturns text) =
      (find? recognise previous text).map fun hit =>
        ⟨withReturns hit.before, f hit.found, withReturns hit.rest⟩ := by
  induction text using lineFeed_induction generalizing previous with
  | nil =>
    have hnil := hrecognise previous []
    rw [withReturns_nil] at hnil ⊢
    rw [find?]
    nth_rewrite 1 [hnil]
    rw [Option.map_map, Option.map_map]
    rfl
  | lineFeed text ih =>
    have hreturn := hstart '\r' List.mem_cons_self
    have hfeed := hstart '\n' (List.mem_cons_of_mem _ List.mem_cons_self)
    rw [withReturns_lineFeed, find?, hreturn, find?, hfeed]
    dsimp only
    rw [ih, find?, hfeed]
    cases find? recognise (some '\n') text <;> rfl
  | other c text hc ih =>
    have hcons := hrecognise previous (c :: text)
    rw [withReturns_cons text hc] at hcons ⊢
    rw [find?, hcons, find?]
    cases recognise previous (c :: text) with
    | some value => rfl
    | none =>
      rw [Option.map_none]
      dsimp only
      rw [ih]
      cases find? recognise (some c) text with
      | none => rfl
      | some hit => simp only [Option.map_some, withReturns_cons _ hc]

end Find

end PlcTypes.Text
