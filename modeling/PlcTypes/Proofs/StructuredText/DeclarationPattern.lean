import PlcTypes.Proofs.StructuredText.Declaration
import PlcTypes.Proofs.Text.PatternScan
import PlcTypes.Proofs.Text.PatternSteps

/-!
# The pattern of a declaration

A declaration is what one pattern matches from the start of a line to its end. The pattern says
nothing about the order in which its parts are read: where blanks stand around a part, it leaves open
to which side they belong. On a line without a line feed the parts are fixed up to blanks around them.
-/

namespace PlcTypes.StructuredText

open Text Pattern

/-- The parts of a declaration that have names. -/
inductive DeclarationPart where
  | name
  | type
  | initial
  | lineComment
  | blockComment
  deriving DecidableEq, Repr

/-- Blanks, as many as there are. -/
def blanks : Pattern DeclarationPart := many true (one isBlank)

/-- A type is written with any characters but these. -/
def isTypePart (c : Char) : Bool := c ∉ [';', ':', '\r', '\n']

/-- A part of a quoted value: a dollar sign takes the next character with it. -/
def quotedPart : Pattern DeclarationPart :=
  or (all [char '$', one (· != '\n')]) (one (· ∉ ['\'', '$', '\r', '\n']))

/-- A quoted value. -/
def quotedPattern : Pattern DeclarationPart := all [char '\'', many true quotedPart, char '\'']

/-- A value up to the next semicolon. -/
def barePattern : Pattern DeclarationPart := many false (one (· ∉ [';', '\r', '\n']))

/-- A comment up to the end of the line. -/
def lineCommentPattern : Pattern DeclarationPart :=
  all [char '/', char '/', blanks, part .lineComment (many false (one (· ∉ ['\r', '\n'])))]

/-- A comment with an end of its own. -/
def blockCommentPattern : Pattern DeclarationPart :=
  all [char '(', char '*', blanks, part .blockComment (many false (one (· != '\n'))), blanks,
    char '*', char ')']

/-- A declaration from the start of a line to its end: a name, a colon, a type, an optional initial
value, a semicolon and an optional comment. -/
def declarationPattern : Pattern DeclarationPart :=
  all [lineStart, blanks, part .name (seq (one isNameStart) (many true (one isNameChar))), blanks,
    char ':', blanks, part .type (seq (one isTypePart) (many false (one isTypePart))), blanks,
    optional (all [char ':', char '=', blanks, part .initial (or quotedPattern barePattern), blanks]),
    char ';', blanks, optional (or lineCommentPattern blockCommentPattern), blanks,
    optional (char '\r'), lineEnd]

namespace Declaration

/-- The declaration with the named parts. An empty initial value is none. -/
def ofParts (parts : List (DeclarationPart × List Char)) : Declaration where
  name := (parts.lookup .name).getD []
  type := (parts.lookup .type).getD []
  initial := ((parts.lookup .initial).map trim).filter (· ≠ [])
  description :=
    trim (((parts.lookup .lineComment).or (parts.lookup .blockComment)).getD [])

/-- The declaration without white space around its type. -/
def trimmed (declaration : Declaration) : Declaration :=
  { declaration with type := trim declaration.type }

end Declaration

/-- What follows the last blanks of a line. -/
def lineTail : Pattern DeclarationPart := all [optional (char '\r'), lineEnd]

/-- What follows the semicolon of a declaration. -/
def descriptionTail : Pattern DeclarationPart :=
  all [blanks, optional (or lineCommentPattern blockCommentPattern), blanks, optional (char '\r'),
    lineEnd]

/-- What follows an initial value. -/
def closeTail : Pattern DeclarationPart := seq blanks (seq (char ';') descriptionTail)

/-- What follows the type of a declaration and the blanks behind it. -/
def initialTail : Pattern DeclarationPart :=
  seq (optional (all [char ':', char '=', blanks, part .initial (or quotedPattern barePattern),
    blanks])) (seq (char ';') descriptionTail)

/-- What follows the name and the colon of a declaration. -/
def typeTail : Pattern DeclarationPart :=
  seq blanks (seq (part .type (seq (one isTypePart) (many false (one isTypePart))))
    (seq blanks initialTail))

variable {previous : Option Char} {text : List Char}

section Tails

variable {q : Pattern DeclarationPart} {γ : Type} {f : List (DeclarationPart × List Char) → γ}

/-- A pattern stands behind a character. -/
theorem map_parts?_char (c : Char) (found : List Char → Option γ) (hfeed : '\n' ∉ text)
    (hparts : ∀ {previous text}, '\n' ∉ text → (q.parts? previous text).map f = found text) :
    ((seq (char c) q).parts? previous text).map f = (after? [c] text).bind found := by
  rw [parts?_seq_char, Option.map_bind]
  refine Option.bind_congr fun rest hrest => hparts fun hmem => hfeed ?_
  rw [after?_eq_some_iff.mp hrest]
  exact List.mem_append_right _ hmem

/-- A pattern that does not take blanks stands behind all of them. -/
theorem parts?_seq_blanks
    (hreject : ∀ c, isBlank c = true → q.mayTake c = false ∧ q.maySkip (some c) = false) :
    (seq blanks q).parts? previous text =
      q.parts? (lastOr previous (text.takeWhile isBlank)) (text.dropWhile isBlank) :=
  parts?_seq_run fun _ _ _ _ hc _ => parts?_cons_eq_none (hreject _ hc).1 (hreject _ hc).2

/-- A pattern stands behind all blanks if it finds something there whenever it does in front of the
last one. -/
theorem map_parts?_behind_blanks (found : List Char → Option γ) (hfeed : '\n' ∉ text)
    (hparts : ∀ {previous text}, '\n' ∉ text → (q.parts? previous text).map f = found text)
    (hblank : ∀ c rest, isBlank c = true → found rest = none → found (c :: rest) = none) :
    ((seq blanks q).parts? previous text).map f = found (text.dropWhile isBlank) := by
  rw [blanks, parts?_seq_run, hparts fun hmem => hfeed ((List.dropWhile_sublist _).subset hmem)]
  intro previous c rest hsuffix hc hnone
  have hline : '\n' ∉ c :: rest := fun hmem => hfeed (hsuffix.subset hmem)
  have hfound : (q.parts? (some c) rest).map f = found rest :=
    hparts fun hmem => hline (List.mem_cons_of_mem c hmem)
  rw [hnone, Option.map_none] at hfound
  rw [← Option.map_eq_none_iff, hparts hline]
  exact hblank c rest hc hfound.symm

/-- Blanks may be left to a pattern if it finds the same with a blank in front, or only there. -/
theorem map_parts?_before_blanks (found : List Char → Option γ) (hfeed : '\n' ∉ text)
    (hparts : ∀ {previous text}, '\n' ∉ text → (q.parts? previous text).map f = found text)
    (hblank : ∀ c rest, isBlank c = true → found rest = none ∨ found (c :: rest) = found rest) :
    ((seq blanks q).parts? previous text).map f = found text := by
  rw [blanks, map_parts?_seq_run f, hparts hfeed]
  intro previous c rest hsuffix hc
  have hline : '\n' ∉ c :: rest := fun hmem => hfeed (hsuffix.subset hmem)
  have hrest : '\n' ∉ rest := fun hmem => hline (List.mem_cons_of_mem c hmem)
  rw [hparts hline, hparts hrest, ← Option.map_eq_none_iff, hparts hrest]
  exact hblank c rest hc

end Tails

/-- Behind the last blanks there is nothing but a carriage return on the line. -/
theorem parts?_lineTail (hfeed : '\n' ∉ text) :
    lineTail.parts? previous text = if dropReturn text = [] then some [] else none := by
  have hends {text : List Char} (h : '\n' ∉ text) : endsLine text = true ↔ text = [] := by
    cases text with
    | nil => simp [endsLine]
    | cons c rest =>
      rw [List.mem_cons, not_or] at h
      simpa [endsLine] using Ne.symm h.1
  rw [lineTail, all, List.foldr, parts?_seq_optional, List.foldr, List.foldr, parts?_seq_lineEnd]
  simp only [dropReturn_eq_nil_iff, hends hfeed, parts?_nothing]
  cases text with
  | nil => rw [parts?_seq_char_nil]; rfl
  | cons c rest =>
    rw [List.mem_cons, not_or] at hfeed
    rw [parts?_seq_char_cons, parts?_seq_lineEnd]
    simp only [hends hfeed.2, parts?_nothing]
    by_cases hc : c = '\r' <;> by_cases hrest : rest = [] <;> simp [hc, hrest]

/-- Blanks and a carriage return may end a line. -/
theorem parts?_blanks_lineTail (hfeed : '\n' ∉ text) : (seq blanks lineTail).parts? previous text =
    if dropReturn (text.dropWhile isBlank) = [] then some [] else none := by
  rw [parts?_seq_blanks, parts?_lineTail fun hmem => hfeed ((List.dropWhile_sublist _).subset hmem)]
  intro c hc
  rcases eq_of_isBlank hc with rfl | rfl <;> decide

end PlcTypes.StructuredText
