import PlcTypes.Proofs.Text.Pattern

/-!
# Scanning line by line

A pattern that takes no line feed does not see past the end of its line, and what stands before it
only matters to it by whether a line starts. So a scan for such a pattern starts anew behind every
line feed. If the pattern also starts at the start of a line, the scan finds in a text what the
pattern matches on each line alone. A scan for a pattern that matches what a recogniser reads is a search
with the recogniser.
-/

namespace PlcTypes.Text.Pattern

variable {Part : Type}

section Line

variable {p q : Pattern Part} {text : List Char}

/-- Taking something keeps places alike that are alike as starts of a line. -/
theorem startsLine_lastOr {a b : Option Char} (h : startsLine a = startsLine b) (taken : List Char) :
    startsLine (lastOr a taken) = startsLine (lastOr b taken) := by
  rw [lastOr, lastOr]
  cases taken.getLast? with
  | none => exact h
  | some c => rfl

/-- A pattern that stays on the line only depends on whether a line starts. -/
theorem ways_congr {a b : Option Char} (hline : p.staysOnLine = true)
    (h : startsLine a = startsLine b) : p.ways a text = p.ways b text := by
  induction p generalizing a b text with
  | one accepts => cases text <;> rfl
  | nothing | lineEnd => rfl
  | textStart | textEnd => simp [staysOnLine] at hline
  | lineStart => rw [ways, ways, h]
  | seq p q hp hq =>
    rw [staysOnLine, Bool.and_eq_true] at hline
    rw [ways, ways, hp hline.1 h]
    refine List.flatMap_congr fun found _ => ?_
    rw [hq hline.2 (startsLine_lastOr h found.taken)]
  | or p q hp hq =>
    rw [staysOnLine, Bool.and_eq_true] at hline
    rw [ways, ways, hp hline.1 h, hq hline.2 h]
  | many greedy body hbody =>
    rw [ways, ways]
    induction hn : text.length using Nat.strong_induction_on generalizing a b text with
    | _ n ih =>
      subst hn
      rw [repeated, repeated.eq_def _ _ b, hbody hline h]
      refine congrArg (arrange greedy · _) (List.flatMap_congr fun found _ => ?_)
      split
      · rename_i hshorter
        rw [ih _ hshorter (startsLine_lastOr h found.taken) rfl]
      · rfl
  | part name body hbody => rw [ways, ways, hbody hline h]

/-- A pattern that stays on the line does not see what follows a line feed. -/
theorem ways_append_lineFeed {previous : Option Char} (hline : p.staysOnLine = true)
    (rest : List Char) : p.ways previous (text ++ '\n' :: rest) =
      (p.ways previous text).map fun found => found.extend ('\n' :: rest) := by
  induction p generalizing previous text with
  | one accepts =>
    cases text with
    | nil =>
      rw [staysOnLine, Bool.not_eq_true'] at hline
      simp [ways, hline]
    | cons c text =>
      rw [List.cons_append, ways, ways]
      split <;> rfl
  | nothing => rfl
  | textStart | textEnd => simp [staysOnLine] at hline
  | lineStart =>
    rw [ways, ways]
    split <;> rfl
  | lineEnd =>
    have hends : endsLine (text ++ '\n' :: rest) = endsLine text := by
      cases text <;> rfl
    rw [ways, ways, hends]
    split <;> rfl
  | seq p q hp hq =>
    rw [staysOnLine, Bool.and_eq_true] at hline
    rw [ways, ways, hp hline.1, List.flatMap_map, List.map_flatMap]
    refine List.flatMap_congr fun found _ => ?_
    rw [Match.extend, hq hline.2, List.map_map, List.map_map]
    rfl
  | or p q hp hq =>
    rw [staysOnLine, Bool.and_eq_true] at hline
    rw [ways, ways, hp hline.1, hq hline.2, List.map_append]
  | many greedy body hbody =>
    rw [ways, ways]
    induction hn : text.length using Nat.strong_induction_on generalizing previous text with
    | _ n ih =>
      subst hn
      rw [repeated, repeated.eq_def _ _ _ text, map_arrange, hbody hline, List.flatMap_map,
        List.map_flatMap]
      refine congrArg (arrange greedy · _) (List.flatMap_congr fun found _ => ?_)
      have hlength : (found.extend ('\n' :: rest)).rest.length < (text ++ '\n' :: rest).length ↔
          found.rest.length < text.length := by
        simp [Match.extend]
      simp only [hlength]
      split
      · rename_i hshorter
        rw [Match.extend, ih _ hshorter rfl, List.map_map, List.map_map]
        rfl
      · rfl
  | part name body hbody =>
    rw [ways, ways, hbody hline, List.map_map, List.map_map]
    rfl

end Line

section Scan

variable {p q : Pattern Part} {previous : Option Char} {text : List Char}

/-- What follows a match of at least one character is shorter. -/
theorem rest_length_lt {found : Match Part} (hskip : ∀ next, p.maySkip next = false)
    (h : p.first? previous text = some found) : found.rest.length < text.length := by
  have hmem := List.mem_of_mem_head? h
  have htaken := List.length_pos_iff.mpr (taken_ne_nil hskip hmem)
  rw [eq_append_of_mem_ways hmem, List.length_append]
  omega

/-- The preferred way does not see what follows a line feed. -/
theorem first?_append_lineFeed (hline : p.staysOnLine = true) (rest : List Char) :
    p.first? previous (text ++ '\n' :: rest) =
      (p.first? previous text).map fun found => found.extend ('\n' :: rest) := by
  rw [first?, first?, ways_append_lineFeed hline, List.head?_map]

/-- The scan goes on behind a match. -/
theorem scan_of_some {found : Match Part} (hskip : ∀ next, p.maySkip next = false)
    (h : p.first? previous text = some found) :
    p.scan previous text = found.parts :: p.scan (lastOr previous found.taken) found.rest := by
  have hlength := rest_length_lt hskip h
  cases text with
  | nil => exact absurd hlength (Nat.not_lt_zero _)
  | cons c text =>
    rw [scan, h]
    exact if_pos hlength

/-- The scan goes on behind the next character if there is no match. -/
theorem scan_cons_of_none {c : Char} (h : p.first? previous (c :: text) = none) :
    p.scan previous (c :: text) = p.scan (some c) text := by
  rw [scan, h]

/-- A scan for a pattern that stays on its line starts anew behind a line feed. -/
theorem scan_append_lineFeed (hline : p.staysOnLine = true)
    (hskip : ∀ next, p.maySkip next = false) (rest : List Char) :
    p.scan previous (text ++ '\n' :: rest) = p.scan previous text ++ p.scan (some '\n') rest := by
  induction hn : text.length using Nat.strong_induction_on generalizing previous text with
  | _ n ih =>
    subst hn
    have hfirst : p.first? previous (text ++ '\n' :: rest) = _ := first?_append_lineFeed hline rest
    cases h : p.first? previous text with
    | some found =>
      have hlength := rest_length_lt hskip h
      rw [h] at hfirst
      rw [scan_of_some hskip h, scan_of_some hskip hfirst, List.cons_append]
      exact congrArg (found.parts :: ·) (ih _ hlength rfl)
    | none =>
      rw [h, Option.map_none] at hfirst
      cases text with
      | nil => rw [List.nil_append, scan_cons_of_none hfirst, scan, List.nil_append]
      | cons c text =>
        rw [List.cons_append] at hfirst ⊢
        rw [scan_cons_of_none hfirst, scan_cons_of_none h]
        exact ih _ (Nat.lt_succ_self _) rfl

/-- A scan for a pattern that stays on its line only depends on whether a line starts. -/
theorem scan_congr {a b : Option Char} (hline : p.staysOnLine = true)
    (hskip : ∀ next, p.maySkip next = false) (h : startsLine a = startsLine b) :
    p.scan a text = p.scan b text := by
  induction hn : text.length using Nat.strong_induction_on generalizing a b text with
  | _ n ih =>
    subst hn
    have hfirst : p.first? a text = p.first? b text := by rw [first?, first?, ways_congr hline h]
    cases hfound : p.first? b text with
    | some found =>
      rw [scan_of_some hskip hfound, scan_of_some hskip (hfirst.trans hfound),
        ih _ (rest_length_lt hskip hfound) (startsLine_lastOr h found.taken) rfl]
    | none =>
      cases text with
      | nil => rw [scan, scan]
      | cons c text => rw [scan_cons_of_none hfound, scan_cons_of_none (hfirst.trans hfound)]

/-- A pattern for the start of a line does not match elsewhere. -/
theorem first?_lineStart_of_within (h : startsLine previous = false) :
    (seq lineStart q).first? previous text = none := by
  simp [first?, ways, h]

/-- No line starts behind the first character of a line. -/
theorem scan_lineStart_of_within (hfeed : '\n' ∉ text) (h : startsLine previous = false) :
    (seq lineStart q).scan previous text = [] := by
  induction text generalizing previous with
  | nil => rw [scan]
  | cons c text ih =>
    rw [List.mem_cons, not_or] at hfeed
    rw [scan_cons_of_none (first?_lineStart_of_within h)]
    refine ih hfeed.2 ?_
    simpa [startsLine] using Ne.symm hfeed.1

/-- A pattern for the start of a line matches on a line at most once, at its start. -/
theorem scan_lineStart_line (hskip : ∀ next, (seq lineStart q).maySkip next = false)
    (hfeed : '\n' ∉ text) :
    (seq lineStart q).scan previous text = ((seq lineStart q).parts? previous text).toList := by
  cases h : (seq lineStart q).first? previous text with
  | none =>
    cases text with
    | nil => rw [scan, parts?, h]; rfl
    | cons c text =>
      rw [List.mem_cons, not_or] at hfeed
      have hwithin : startsLine (some c) = false := by simpa [startsLine] using Ne.symm hfeed.1
      rw [scan_cons_of_none h, scan_lineStart_of_within hfeed.2 hwithin, parts?, h]
      rfl
  | some found =>
    have hmem := List.mem_of_mem_head? h
    have hsplit := eq_append_of_mem_ways hmem
    rw [hsplit, List.mem_append, not_or] at hfeed
    have hwithin : startsLine (lastOr previous found.taken) = false := by
      have hne := taken_ne_nil hskip hmem
      have hlast : found.taken.getLast hne ≠ '\n' := fun heq => hfeed.1 (heq ▸ List.getLast_mem hne)
      simpa [lastOr, List.getLast?_eq_some_getLast hne, startsLine] using hlast
    rw [scan_of_some hskip h, scan_lineStart_of_within hfeed.2 hwithin, parts?, h]
    rfl

/-- A scan for a pattern that starts at the start of a line and stays on it finds in a text what the
pattern matches on each line alone. -/
theorem scan_lineStart (hline : q.staysOnLine = true)
    (hskip : ∀ next, (seq lineStart q).maySkip next = false) (text : List Char) :
    (seq lineStart q).scan none text = (lines text).filterMap ((seq lineStart q).parts? none) := by
  have hstays : (seq lineStart q).staysOnLine = true := hline
  have hstart (text : List Char) :
      (seq lineStart q).scan (some '\n') text = (seq lineStart q).scan none text :=
    scan_congr hstays hskip rfl
  induction hn : text.length using Nat.strong_induction_on generalizing text with
  | _ n ih =>
    subst hn
    by_cases hfeed : '\n' ∈ text
    · obtain ⟨before, after, rfl⟩ := List.append_of_mem hfeed
      rw [scan_append_lineFeed hstays hskip, hstart, lines_append_lineFeed, List.filterMap_append,
        ih before.length (by simp) before rfl, ih after.length (by simp; omega) after rfl]
    · rw [scan_lineStart_line hskip hfeed, lines_of_notMem hfeed, List.filterMap_cons]
      cases (seq lineStart q).parts? none text <;> rfl

/-- A scan for a pattern that matches what a recogniser reads finds what the recogniser finds. -/
theorem scan_eq_map_findAll {α : Type} {recognise : List Char → Option (α × List Char)}
    (parts : α → List (Part × List Char)) (hskip : ∀ next, p.maySkip next = false)
    (hadvance : Advances recognise)
    (hparts : ∀ previous text, p.parts? previous text = (recognise text).map fun found => parts found.1)
    (hrest : ∀ previous text, (p.first? previous text).map Match.rest = (recognise text).map Prod.snd) :
    p.scan previous text = (findAll recognise text).map parts := by
  induction hn : text.length using Nat.strong_induction_on generalizing previous text with
  | _ n ih =>
    subst hn
    have hfirst := hrest previous text
    have hfound := hparts previous text
    cases hread : recognise text with
    | some hit =>
      obtain ⟨value, rest⟩ := hit
      rw [hread] at hfirst hfound
      obtain ⟨found, hmatch, rfl⟩ := Option.map_eq_some_iff.mp hfirst
      rw [parts?, hmatch] at hfound
      rw [scan_of_some hskip hmatch, findAll_of_accept hadvance hread, List.map_cons,
        Option.some.inj hfound, ih _ (rest_length_lt hskip hmatch) rfl]
    | none =>
      rw [hread] at hfirst
      have hnone := Option.map_eq_none_iff.mp hfirst
      cases text with
      | nil => rw [scan, findAll_nil, List.map_nil]
      | cons c text =>
        rw [scan_cons_of_none hnone, findAll_cons_of_reject hread]
        exact ih _ (Nat.lt_succ_self _) rfl

end Scan

end PlcTypes.Text.Pattern
