/-!
# Searching a text

A recogniser looks at the front of a text and answers with what it read and with the rest.
The searches here try one at every place from the left: the first literal occurrence, the
first place a recogniser accepts together with the character before it, and all places that
do not overlap.
-/

namespace PlcTypes.Text

/-- What follows `word` in a text that starts with it. -/
def after? : List Char → List Char → Option (List Char)
  | [], text => some text
  | _ :: _, [] => none
  | w :: word, c :: text => if w == c then after? word text else none

/-- What follows a word that the text starts with in some letter case. -/
def afterIgnoringCase? : List Char → List Char → Option (List Char)
  | [], text => some text
  | _ :: _, [] => none
  | w :: word, c :: text =>
    if w.toLower == c.toLower then afterIgnoringCase? word text else none

/-- What follows a word is shorter by the word. -/
theorem length_afterIgnoringCase? {word text rest : List Char}
    (h : afterIgnoringCase? word text = some rest) : rest.length + word.length = text.length := by
  induction word generalizing text with
  | nil => simp_all [afterIgnoringCase?]
  | cons w word ih =>
    cases text with
    | nil => simp [afterIgnoringCase?] at h
    | cons c text =>
      simp only [afterIgnoringCase?] at h
      split at h
      · have := ih h
        simp only [List.length_cons]
        omega
      · simp at h

/-- What follows a literal is shorter by the literal. -/
theorem length_after? {word text rest : List Char} (h : after? word text = some rest) :
    rest.length + word.length = text.length := by
  induction word generalizing text with
  | nil => simp_all [after?]
  | cons w word ih =>
    cases text with
    | nil => simp [after?] at h
    | cons c text =>
      simp only [after?] at h
      split at h
      · have := ih h
        simp only [List.length_cons]
        omega
      · simp at h

/-- The text before and after the first occurrence of `word`. -/
def cut? (word : List Char) : List Char → Option (List Char × List Char)
  | [] => if word = [] then some ([], []) else none
  | c :: rest =>
    match after? word (c :: rest) with
    | some tail => some ([], tail)
    | none => (cut? word rest).map fun (before, tail) => (c :: before, tail)

/-- The text before and after the last occurrence of one character. -/
def cutLast? (mark : Char) : List Char → Option (List Char × List Char)
  | [] => none
  | c :: rest =>
    match cutLast? mark rest with
    | some (before, tail) => some (c :: before, tail)
    | none => if c = mark then some ([], rest) else none

/-- The text between two marks: from the first `opening` to the first `closing` after it. -/
def between? (opening closing text : List Char) : Option (List Char) :=
  (cut? opening text).bind fun (_, tail) => (cut? closing tail).map Prod.fst

/-- One place a recogniser accepted: the text before it, what was read, and the rest. -/
structure Hit (α : Type) where
  before : List Char
  found : α
  rest : List Char

/-- The first place from the left where `recognise` accepts. It is told the character before
the place, or `none` at the start of the text. -/
def find? {α : Type} (recognise : Option Char → List Char → Option (α × List Char)) :
    Option Char → List Char → Option (Hit α)
  | previous, [] => (recognise previous []).map fun (found, rest) => ⟨[], found, rest⟩
  | previous, c :: text =>
    match recognise previous (c :: text) with
    | some (found, rest) => some ⟨[], found, rest⟩
    | none => (find? recognise (some c) text).map fun hit => { hit with before := c :: hit.before }

/-- All values a recogniser reads from a text without overlap, in at most `fuel` steps. A step
either reads one value and goes on behind it or drops one character. -/
def findAllWithin {α : Type} (recognise : List Char → Option (α × List Char)) :
    Nat → List Char → List α
  | 0, _ => []
  | _ + 1, [] => []
  | fuel + 1, c :: text =>
    match recognise (c :: text) with
    | some (found, rest) => found :: findAllWithin recognise fuel rest
    | none => findAllWithin recognise fuel text

/-- All values a recogniser reads from a text without overlap, from left to right. -/
def findAll {α : Type} (recognise : List Char → Option (α × List Char)) (text : List Char) :
    List α :=
  findAllWithin recognise text.length text

/-- The lines of a text, without the line feeds between them. -/
def lines : List Char → List (List Char)
  | [] => [[]]
  | c :: rest =>
    if c = '\n' then [] :: lines rest
    else
      match lines rest with
      | [] => [[c]]
      | line :: others => (c :: line) :: others

end PlcTypes.Text
