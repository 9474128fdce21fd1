import PlcTypes.Proofs.Text.Search

/-!
# Patterns

A pattern describes the front of a text and names parts of it. It is matched by backtracking: where
a pattern leaves a choice, one alternative is preferred, and a later one is taken only if what
follows cannot be matched behind the earlier ones. So a pattern has a list of ways to match, and the
first of them counts. A scan tries the pattern at every place from the left and goes on behind what
was matched.

What a pattern may take and where it may be skipped can be read off the pattern by the next character
alone.
-/

namespace PlcTypes.Text

/-- A pattern whose parts have names of a type. -/
inductive Pattern (Part : Type) where
  | one (accepts : Char → Bool)
  | nothing
  | textStart
  | textEnd
  | lineStart
  | lineEnd
  | seq (first second : Pattern Part)
  | or (first second : Pattern Part)
  | many (greedy : Bool) (body : Pattern Part)
  | part (name : Part) (body : Pattern Part)

/-- A way to match a pattern: the text taken, the named parts of it, and what follows. -/
structure Match (Part : Type) where
  taken : List Char
  parts : List (Part × List Char)
  rest : List Char

variable {Part : Type}

namespace Match

/-- Take nothing. -/
def empty (text : List Char) : Match Part := ⟨[], [], text⟩

/-- Take more behind what was taken. -/
def append (found more : Match Part) : Match Part :=
  ⟨found.taken ++ more.taken, found.parts ++ more.parts, more.rest⟩

/-- The same with a name for what was taken. -/
def named (name : Part) (found : Match Part) : Match Part :=
  { found with parts := (name, found.taken) :: found.parts }

/-- The same in a text that goes on. -/
def extend (found : Match Part) (tail : List Char) : Match Part :=
  { found with rest := found.rest ++ tail }

end Match

/-- Whether a place behind this character is the start of a line. -/
def startsLine (previous : Option Char) : Bool := previous.all (· == '\n')

/-- Whether the end of a line is in front of this text. -/
def endsLine (text : List Char) : Bool := text.head?.all (· == '\n')

namespace Pattern

/-- The ways to go on and the one to stop: a greedy pattern stops as late as possible. -/
def arrange (greedy : Bool) (further : List (Match Part)) (stop : Match Part) :
    List (Match Part) :=
  if greedy then further ++ [stop] else stop :: further

/-- The ways to match something any number of times. It is not repeated behind a match of no
character. -/
def repeated (ways : Option Char → List Char → List (Match Part)) (greedy : Bool)
    (previous : Option Char) (text : List Char) : List (Match Part) :=
  arrange greedy ((ways previous text).flatMap fun found =>
    if found.rest.length < text.length then
      (repeated ways greedy (lastOr previous found.taken) found.rest).map found.append
    else []) (.empty text)
termination_by text.length

/-- The ways to match a pattern in front of a text, the preferred one first. -/
def ways : Pattern Part → Option Char → List Char → List (Match Part)
  | one _, _, [] => []
  | one accepts, _, c :: text => if accepts c then [⟨[c], [], text⟩] else []
  | nothing, _, text => [.empty text]
  | textStart, previous, text => if previous = none then [.empty text] else []
  | textEnd, _, text => if text = [] then [.empty text] else []
  | lineStart, previous, text => if startsLine previous then [.empty text] else []
  | lineEnd, _, text => if endsLine text then [.empty text] else []
  | seq first second, previous, text => (first.ways previous text).flatMap fun found =>
    (second.ways (lastOr previous found.taken) found.rest).map found.append
  | or first second, previous, text => first.ways previous text ++ second.ways previous text
  | many greedy body, previous, text => repeated body.ways greedy previous text
  | part name body, previous, text => (body.ways previous text).map (Match.named name)

/-- The preferred way to match a pattern in front of a text. -/
def first? (pattern : Pattern Part) (previous : Option Char) (text : List Char) :
    Option (Match Part) :=
  (pattern.ways previous text).head?

/-- The named parts of the preferred way. -/
def parts? (pattern : Pattern Part) (previous : Option Char) (text : List Char) :
    Option (List (Part × List Char)) :=
  (pattern.first? previous text).map Match.parts

/-- The named parts of all matches of at least one character, from left to right and without
overlap. -/
def scan (pattern : Pattern Part) (previous : Option Char) :
    List Char → List (List (Part × List Char))
  | [] => []
  | c :: text =>
    match pattern.first? previous (c :: text) with
    | some found =>
      if found.rest.length < (c :: text).length then
        found.parts :: scan pattern (lastOr previous found.taken) found.rest
      else scan pattern (some c) text
    | none => scan pattern (some c) text
termination_by text => text.length
decreasing_by
  · assumption
  · exact Nat.lt_succ_self _
  · exact Nat.lt_succ_self _

/-- One pattern behind the other, from first to last. -/
def all (patterns : List (Pattern Part)) : Pattern Part := patterns.foldr seq nothing

/-- The pattern, or else nothing. -/
def optional (pattern : Pattern Part) : Pattern Part := or pattern nothing

/-- One given character. -/
def char (c : Char) : Pattern Part := one (· == c)

/-- Whether the pattern takes no line feed and does not depend on where the text starts and ends. -/
def staysOnLine : Pattern Part → Bool
  | one accepts => !accepts '\n'
  | nothing | lineStart | lineEnd => true
  | textStart | textEnd => false
  | seq first second | or first second => first.staysOnLine && second.staysOnLine
  | many _ body | part _ body => body.staysOnLine

/-- Whether the pattern may take nothing in front of a character or of the end. -/
def maySkip : Pattern Part → Option Char → Bool
  | one _, _ => false
  | nothing, _ | textStart, _ | lineStart, _ => true
  | textEnd, next => next.isNone
  | lineEnd, next => next.all (· == '\n')
  | seq first second, next => first.maySkip next && second.maySkip next
  | or first second, next => first.maySkip next || second.maySkip next
  | many _ _, _ => true
  | part _ body, next => body.maySkip next

/-- Whether the pattern may take a text that starts with a character. -/
def mayTake : Pattern Part → Char → Bool
  | one accepts, c => accepts c
  | nothing, _ | textStart, _ | textEnd, _ | lineStart, _ | lineEnd, _ => false
  | seq first second, c => first.mayTake c || (first.maySkip (some c) && second.mayTake c)
  | or first second, c => first.mayTake c || second.mayTake c
  | many _ body, c => body.mayTake c
  | part _ body, c => body.mayTake c

/-- Whether the pattern has named parts. -/
def hasParts : Pattern Part → Bool
  | one _ | nothing | textStart | textEnd | lineStart | lineEnd => false
  | seq first second | or first second => first.hasParts || second.hasParts
  | many _ body => body.hasParts
  | part _ _ => true

section Ways

variable {p q r : Pattern Part} {previous : Option Char} {text : List Char} {found : Match Part}

/-- The order does not matter to whether a way is among them. -/
theorem mem_arrange_iff {greedy : Bool} {further : List (Match Part)} {stop : Match Part} :
    found ∈ arrange greedy further stop ↔ found = stop ∨ found ∈ further := by
  cases greedy <;> simp [arrange, or_comm]

/-- What is done to the ways is done to the one to stop and to those to go on. -/
theorem map_arrange (f : Match Part → Match Part) (greedy : Bool) (further : List (Match Part))
    (stop : Match Part) :
    (arrange greedy further stop).map f = arrange greedy (further.map f) (f stop) := by
  cases greedy <;> simp [arrange]

/-- A repeated pattern takes nothing, or it is matched once and then repeated on a shorter text. -/
theorem mem_repeated_iff {ways : Option Char → List Char → List (Match Part)} {greedy : Bool} :
    found ∈ repeated ways greedy previous text ↔
      found = .empty text ∨ ∃ first ∈ ways previous text, first.rest.length < text.length ∧
        ∃ more ∈ repeated ways greedy (lastOr previous first.taken) first.rest,
          found = first.append more := by
  rw [repeated, mem_arrange_iff, List.mem_flatMap]
  refine or_congr_right (exists_congr fun first => and_congr_right fun _ => ?_)
  split
  · rename_i hshorter
    simp only [List.mem_map, hshorter, true_and, eq_comm]
  · rename_i hlonger
    simp [hlonger]

/-- What is taken and what follows make up the text. -/
theorem eq_append_of_mem_ways (h : found ∈ p.ways previous text) :
    text = found.taken ++ found.rest := by
  induction p generalizing previous text found with
  | one accepts =>
    cases text with
    | nil => simp [ways] at h
    | cons c text =>
      rw [ways] at h
      split at h
      · rw [List.mem_singleton.mp h, List.singleton_append]
      · simp at h
  | nothing => rw [List.mem_singleton.mp h, Match.empty, List.nil_append]
  | textStart | textEnd | lineStart | lineEnd =>
    rw [ways] at h
    split at h
    · rw [List.mem_singleton.mp h, Match.empty, List.nil_append]
    · simp at h
  | seq p q hp hq =>
    obtain ⟨first, hfirst, hbehind⟩ := List.mem_flatMap.mp h
    obtain ⟨second, hsecond, hfound⟩ := List.mem_map.mp hbehind
    rw [← hfound, Match.append, List.append_assoc, ← hq hsecond]
    exact hp hfirst
  | or p q hp hq => exact (List.mem_append.mp h).elim hp hq
  | many greedy body hbody =>
    rw [ways] at h
    induction hn : text.length using Nat.strong_induction_on generalizing previous text found with
    | _ n ih =>
      subst hn
      rcases mem_repeated_iff.mp h with rfl | ⟨first, hfirst, hshorter, more, hmore, rfl⟩
      · rfl
      · rw [hbody hfirst, ih _ hshorter hmore rfl, Match.append, List.append_assoc]
  | part name body hbody =>
    obtain ⟨inner, hinner, rfl⟩ := List.mem_map.mp h
    have htext := hbody hinner
    exact htext

/-- A pattern takes nothing only where it may be skipped, and else it may take what it takes. -/
theorem front_of_mem_ways (h : found ∈ p.ways previous text) :
    found.taken = [] ∧ p.maySkip text.head? = true ∨
      ∃ c rest, found.taken = c :: rest ∧ p.mayTake c = true := by
  induction p generalizing previous text found with
  | one accepts =>
    cases text with
    | nil => simp [ways] at h
    | cons c text =>
      rw [ways] at h
      split at h
      · rename_i hc
        rw [List.mem_singleton.mp h]
        exact Or.inr ⟨c, [], rfl, hc⟩
      · simp at h
  | nothing => exact Or.inl ⟨by rw [List.mem_singleton.mp h, Match.empty], rfl⟩
  | textStart | textEnd | lineStart | lineEnd =>
    rw [ways] at h
    split at h
    · rename_i hhere
      exact Or.inl ⟨by rw [List.mem_singleton.mp h, Match.empty], by simp_all [maySkip, endsLine]⟩
    · simp at h
  | seq p q hp hq =>
    obtain ⟨first, hfirst, hbehind⟩ := List.mem_flatMap.mp h
    obtain ⟨second, hsecond, rfl⟩ := List.mem_map.mp hbehind
    simp only [maySkip, mayTake, Match.append, Bool.and_eq_true, Bool.or_eq_true]
    rcases hp hfirst with ⟨hnil, hskip⟩ | ⟨c, rest, hcons, htake⟩
    · have htext : text = first.rest := by
        rw [eq_append_of_mem_ways hfirst, hnil, List.nil_append]
      rw [hnil, List.nil_append]
      rcases hq hsecond with ⟨hnil', hskip'⟩ | ⟨c, rest, hcons, htake⟩
      · exact Or.inl ⟨hnil', hskip, htext ▸ hskip'⟩
      · have hhead : text.head? = some c := by
          rw [htext, eq_append_of_mem_ways hsecond, hcons, List.cons_append, List.head?_cons]
        exact Or.inr ⟨c, rest, hcons, Or.inr ⟨hhead ▸ hskip, htake⟩⟩
    · exact Or.inr ⟨c, rest ++ second.taken, by rw [hcons, List.cons_append], Or.inl htake⟩
  | or p q hp hq =>
    simp only [maySkip, mayTake, Bool.or_eq_true]
    rcases List.mem_append.mp h with h | h
    · rcases hp h with ⟨hnil, hskip⟩ | ⟨c, rest, hcons, htake⟩
      · exact Or.inl ⟨hnil, Or.inl hskip⟩
      · exact Or.inr ⟨c, rest, hcons, Or.inl htake⟩
    · rcases hq h with ⟨hnil, hskip⟩ | ⟨c, rest, hcons, htake⟩
      · exact Or.inl ⟨hnil, Or.inr hskip⟩
      · exact Or.inr ⟨c, rest, hcons, Or.inr htake⟩
  | many greedy body hbody =>
    rcases mem_repeated_iff.mp h with rfl | ⟨first, hfirst, hshorter, more, hmore, rfl⟩
    · exact Or.inl ⟨rfl, rfl⟩
    · rcases hbody hfirst with ⟨hnil, -⟩ | ⟨c, rest, hcons, htake⟩
      · -- A match of no character does not make the text shorter.
        rw [eq_append_of_mem_ways hfirst, hnil, List.nil_append] at hshorter
        exact absurd hshorter (lt_irrefl _)
      · refine Or.inr ⟨c, rest ++ more.taken, ?_, htake⟩
        rw [Match.append, hcons, List.cons_append]
  | part name body hbody =>
    obtain ⟨inner, hinner, rfl⟩ := List.mem_map.mp h
    have hfront := hbody hinner
    exact hfront

/-- A pattern that may neither take a character nor be skipped in front of it does not match there. -/
theorem ways_cons_eq_nil {c : Char} (htake : p.mayTake c = false)
    (hskip : p.maySkip (some c) = false) : p.ways previous (c :: text) = [] := by
  refine List.eq_nil_iff_forall_not_mem.mpr fun found hfound => ?_
  rcases front_of_mem_ways hfound with ⟨-, hmay⟩ | ⟨d, rest, hcons, hmay⟩
  · rw [List.head?_cons, hskip] at hmay
    exact Bool.false_ne_true hmay
  · have hsplit := eq_append_of_mem_ways hfound
    rw [hcons, List.cons_append, List.cons.injEq] at hsplit
    rw [← hsplit.1, htake] at hmay
    exact Bool.false_ne_true hmay

/-- A pattern that may not be skipped takes something. -/
theorem taken_ne_nil (hskip : ∀ next, p.maySkip next = false) (h : found ∈ p.ways previous text) :
    found.taken ≠ [] := by
  intro hnil
  rcases front_of_mem_ways h with ⟨-, hmay⟩ | ⟨c, rest, hcons, -⟩
  · simp [hskip] at hmay
  · simp [hnil] at hcons

/-- A pattern without named parts finds none. -/
theorem parts_eq_nil (hparts : p.hasParts = false) (h : found ∈ p.ways previous text) :
    found.parts = [] := by
  induction p generalizing previous text found with
  | one accepts =>
    cases text with
    | nil => simp [ways] at h
    | cons c text =>
      rw [ways] at h
      split at h
      · rw [List.mem_singleton.mp h]
      · simp at h
  | nothing => rw [List.mem_singleton.mp h, Match.empty]
  | textStart | textEnd | lineStart | lineEnd =>
    rw [ways] at h
    split at h
    · rw [List.mem_singleton.mp h, Match.empty]
    · simp at h
  | seq p q hp hq =>
    rw [hasParts, Bool.or_eq_false_iff] at hparts
    obtain ⟨first, hfirst, hbehind⟩ := List.mem_flatMap.mp h
    obtain ⟨second, hsecond, rfl⟩ := List.mem_map.mp hbehind
    rw [Match.append, hp hparts.1 hfirst, hq hparts.2 hsecond, List.nil_append]
  | or p q hp hq =>
    rw [hasParts, Bool.or_eq_false_iff] at hparts
    exact (List.mem_append.mp h).elim (hp hparts.1) (hq hparts.2)
  | many greedy body hbody =>
    rw [ways] at h
    induction hn : text.length using Nat.strong_induction_on generalizing previous text found with
    | _ n ih =>
      subst hn
      rcases mem_repeated_iff.mp h with rfl | ⟨first, hfirst, hshorter, more, hmore, rfl⟩
      · rfl
      · rw [Match.append, hbody hparts hfirst, ih _ hshorter hmore rfl, List.nil_append]
  | part name body => simp [hasParts] at hparts

end Ways

end Pattern

end PlcTypes.Text
