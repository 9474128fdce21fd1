/-!
# White space

The characters with the Unicode property White_Space, and the three ways the formats use
them: trimming a text, cutting it into words and folding it onto one line. A blank is the
narrower class of space and tab, which never reaches past the end of a line.
-/

namespace PlcTypes.Text

/-- The Unicode property White_Space. -/
def isSpace (c : Char) : Bool :=
  let n := c.toNat
  (9 ≤ n && n ≤ 13) || n == 0x20 || n == 0x85 || n == 0xA0 || n == 0x1680 ||
    (0x2000 ≤ n && n ≤ 0x200A) || n == 0x2028 || n == 0x2029 || n == 0x202F || n == 0x205F ||
    n == 0x3000

/-- A space or a tab. -/
def isBlank (c : Char) : Bool := c == ' ' || c == '\t'

/-- Whether a text starts with white space. -/
def startsWithSpace : List Char → Bool
  | [] => false
  | c :: _ => isSpace c

/-- Drop the longest final run of characters that satisfy `p`. -/
def dropEndWhile (p : Char → Bool) : List Char → List Char
  | [] => []
  | c :: rest =>
    match dropEndWhile p rest with
    | [] => if p c then [] else [c]
    | kept => c :: kept

/-- Remove white space at both ends. -/
def trim (text : List Char) : List Char := dropEndWhile isSpace (text.dropWhile isSpace)

/-- Put a word in front of the others, unless it is empty. -/
def consWord : List Char → List (List Char) → List (List Char)
  | [], others => others
  | word, others => word :: others

/-- The word a text starts with, empty if it starts with white space, and the later words. -/
def firstWord : List Char → List Char × List (List Char)
  | [] => ([], [])
  | c :: rest =>
    let (word, others) := firstWord rest
    if isSpace c then ([], consWord word others) else (c :: word, others)

/-- The maximal runs of characters other than white space, in order. -/
def words (text : List Char) : List (List Char) :=
  let (word, others) := firstWord text
  consWord word others

/-- The words of a text joined by single spaces: the text folded onto one line. -/
def foldLine (text : List Char) : List Char := [' '].intercalate (words text)

/-- Dropping a run leaves no more than there was. -/
theorem length_dropWhile_le (p : Char → Bool) (text : List Char) :
    (text.dropWhile p).length ≤ text.length :=
  (List.dropWhile_sublist p).length_le

/-- Dropping a final run leaves no more than there was. -/
theorem length_dropEndWhile_le (p : Char → Bool) (text : List Char) :
    (dropEndWhile p text).length ≤ text.length := by
  induction text with
  | nil => simp [dropEndWhile]
  | cons c rest ih =>
    simp only [dropEndWhile]
    split
    · split <;> simp
    · rename_i kept _
      simpa using ih

/-- Trimming leaves no more than there was. -/
theorem length_trim_le (text : List Char) : (trim text).length ≤ text.length :=
  Nat.le_trans (length_dropEndWhile_le isSpace _) (length_dropWhile_le isSpace text)

end PlcTypes.Text
