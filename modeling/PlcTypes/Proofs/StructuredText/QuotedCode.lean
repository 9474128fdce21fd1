import PlcTypes.Proofs.StructuredText.InitialPattern

/-!
# Quoted texts as a prefix code

The pattern of a quoted value leaves no choice: whatever is to follow, it takes what the scanner takes.
A quoted text is taken as a whole, whatever stands behind it. So no quoted text is the start of another
one, and several of them one behind the other come apart in one way only.
-/

namespace PlcTypes

open Text Pattern

/-- There is no way to go on behind a pattern if there is none behind any way to match it. -/
theorem Text.Pattern.takenBefore?_eq_none_iff {Part β : Type} {p : Pattern Part} {previous : Option Char}
    {text : List Char} {next : Option Char → List Char → Option β} :
    p.takenBefore? next previous text = none ↔
      ∀ found ∈ p.ways previous text, next (lastOr previous found.taken) found.rest = none := by
  simp only [takenBefore?, List.findSome?_eq_none_iff, Option.map_eq_none_iff]

namespace StructuredText

variable {previous : Option Char} {text inner rest : List Char} {found : Match DeclarationPart}

/-- A quoted value that is matched has been scanned. -/
theorem takeQuoted?_of_mem_ways (h : found ∈ quotedPattern.ways previous text) :
    ∃ inner, (after? ['\''] text).bind takeQuoted? = some (inner, found.rest) ∧
      found = ⟨'\'' :: (inner ++ ['\'']), [], found.rest⟩ := by
  -- only the given way is followed by what is left over by it
  let next (_ : Option Char) (rest : List Char) : Option Unit := if rest = found.rest then some () else none
  have hnext : quotedPattern.takenBefore? next previous text ≠ none := by
    rw [Ne, takenBefore?_eq_none_iff]
    intro hnone
    simpa only [next, if_true, reduceCtorEq] using hnone found h
  obtain ⟨⟨taken, _⟩, htaken⟩ := Option.ne_none_iff_exists'.mp hnext
  obtain ⟨rest, htext, hrest⟩ := exists_of_takenBefore?_eq_some htaken
  obtain ⟨rfl, -⟩ := Option.ite_none_right_eq_some.mp hrest
  rw [takenBefore?_quotedPattern] at htaken
  obtain ⟨⟨inner, behind⟩, hscan, hgiven⟩ := Option.bind_eq_some_iff.mp htaken
  obtain ⟨_, hbehind, heq⟩ := Option.map_eq_some_iff.mp hgiven
  obtain ⟨rfl, -⟩ := Option.ite_none_right_eq_some.mp hbehind
  obtain ⟨rfl, -⟩ := Prod.mk.inj heq
  refine ⟨inner, hscan, ?_⟩
  have hsame := htext.symm.trans (eq_append_of_mem_ways h)
  rw [List.append_cancel_right hsame, ← parts_eq_nil rfl h]

/-- A quoted value is matched in the one way in which it is scanned, or in none. -/
theorem mem_ways_quotedPattern_iff : found ∈ quotedPattern.ways previous text ↔
    ∃ inner rest, (after? ['\''] text).bind takeQuoted? = some (inner, rest) ∧
      found = ⟨'\'' :: (inner ++ ['\'']), [], rest⟩ := by
  constructor
  · intro h
    obtain ⟨inner, hscan, hfound⟩ := takeQuoted?_of_mem_ways h
    exact ⟨inner, found.rest, hscan, hfound⟩
  · rintro ⟨inner, rest, hscan, rfl⟩
    have hsome : quotedPattern.takenBefore? (fun _ _ => some ()) previous text ≠ none := by
      rw [takenBefore?_quotedPattern, hscan]
      exact Option.some_ne_none _
    rw [Ne, takenBefore?_eq_none_iff, not_forall₂] at hsome
    obtain ⟨found, hfound, -⟩ := hsome
    obtain ⟨inner', hscan', heq⟩ := takeQuoted?_of_mem_ways hfound
    obtain ⟨rfl, hrest⟩ := Prod.mk.inj (Option.some.inj (hscan.symm.trans hscan'))
    rw [hrest, ← heq]
    exact hfound

/-- A quoted text is scanned up to its own end, whatever follows. -/
theorem takeQuoted?_quote (text rest : List Char) :
    (after? ['\''] (quote text ++ rest)).bind takeQuoted? = some (text.flatMap escape, rest) := by
  rw [quote, List.cons_append, after?, if_pos (by decide), after?, Option.bind_some, List.append_assoc]
  exact takeQuoted?_escaped text rest

/-- Quoted texts that start a text are the same. -/
theorem quote_append_inj {other rest' : List Char} (h : quote text ++ rest = quote other ++ rest') :
    text = other ∧ rest = rest' := by
  have hscan := takeQuoted?_quote text rest
  rw [h, takeQuoted?_quote, Option.some.injEq, Prod.mk.injEq] at hscan
  refine ⟨?_, hscan.2.symm⟩
  rw [← unquote_escaped text, ← hscan.1, unquote_escaped]

/-- Quoted texts are a prefix code for texts: a quoted text stays on its line, its escapes are resolved to
the text, and in front of whatever follows a quoted value is matched by the quoted text, by nothing less
and nothing more. So the quoted texts that start two equal texts are the same. -/
theorem quote_isPrefixCode (text : List Char) :
    ('\r' ∉ quote text ∧ '\n' ∉ quote text) ∧
    (∃ inner, quote text = '\'' :: (inner ++ ['\'']) ∧ unquote inner = text ∧
      ∀ rest, takeQuoted? (inner ++ '\'' :: rest) = some (inner, rest)) ∧
    (∀ previous rest found, found ∈ quotedPattern.ways previous (quote text ++ rest) ↔
      found = ⟨quote text, [], rest⟩) ∧
    ∀ other rest rest', quote text ++ rest = quote other ++ rest' → text = other ∧ rest = rest' := by
  obtain ⟨hfeed, hreturn⟩ := oneLine_quote text
  refine ⟨⟨hreturn, hfeed⟩, ⟨_, rfl, unquote_escaped text, takeQuoted?_escaped text⟩, ?_,
    fun _ _ _ => quote_append_inj⟩
  intro previous rest found
  rw [mem_ways_quotedPattern_iff]
  simp only [takeQuoted?_quote, Option.some.injEq, Prod.mk.injEq, and_assoc, exists_and_left,
    exists_eq_left']
  rfl

end StructuredText

end PlcTypes
