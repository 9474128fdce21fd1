import PlcTypes.Proofs.Text.Pattern
import PlcTypes.Proofs.Text.Space

/-!
# Matching step by step

What the preferred way to match one pattern behind another names depends on the first pattern only
through the text that it takes. Behind a run of characters that another pattern does not take, the
first way that goes on is the longest run, whatever is preferred; so such a choice can be read as a
deterministic step. In front of a word the shortest text is the one before its first occurrence.
-/

namespace PlcTypes.Text.Pattern

variable {Part β γ : Type}

/-- What a pattern takes in the first way behind which `next` gives something, and what that is. -/
def takenBefore? (pattern : Pattern Part) (next : Option Char → List Char → Option β)
    (previous : Option Char) (text : List Char) : Option (List Char × β) :=
  (pattern.ways previous text).findSome? fun found =>
    (next (lastOr previous found.taken) found.rest).map (found.taken, ·)

/-- What stands before a text after taking one part of it and then another. -/
theorem lastOr_append (previous : Option Char) (first second : List Char) :
    lastOr previous (first ++ second) = lastOr (lastOr previous first) second := by
  rw [lastOr, lastOr, lastOr, List.getLast?_append, Option.or_assoc]

/-- The first value only depends on the values of the members. -/
theorem findSome?_congr_of_mem {α : Type} {l : List α} {f g : α → Option β}
    (h : ∀ a ∈ l, f a = g a) : l.findSome? f = l.findSome? g := by
  rw [← List.head?_filterMap, List.filterMap_congr h, List.head?_filterMap]

section Steps

variable {p q r : Pattern Part} {previous : Option Char} {text : List Char}
  {next : Option Char → List Char → Option β}

/-- A pattern that matches nowhere in front of a text names no parts of it. -/
theorem parts?_cons_eq_none {c : Char} (htake : p.mayTake c = false)
    (hskip : p.maySkip (some c) = false) : p.parts? previous (c :: text) = none := by
  rw [parts?, first?, ways_cons_eq_nil htake hskip]
  rfl

/-- The parts of two patterns are those of the first way behind which the second one matches. -/
theorem parts?_seq_eq_findSome? : (seq p q).parts? previous text =
    (p.ways previous text).findSome? fun found =>
      (q.parts? (lastOr previous found.taken) found.rest).map (found.parts ++ ·) := by
  rw [parts?, first?, ways, List.head?_flatMap, List.map_findSome?]
  refine findSome?_congr_of_mem fun found _ => ?_
  rw [Function.comp_apply, List.head?_map, parts?, first?, Option.map_map, Option.map_map]
  rfl

/-- A pattern without named parts in front of another one. -/
theorem parts?_seq (hparts : p.hasParts = false) : (seq p q).parts? previous text =
    (p.takenBefore? q.parts? previous text).map Prod.snd := by
  rw [parts?_seq_eq_findSome?, takenBefore?, List.map_findSome?]
  refine findSome?_congr_of_mem fun found hfound => ?_
  rw [Function.comp_apply, parts_eq_nil hparts hfound, Option.map_map]
  rfl

/-- A pattern with one named part in front of another one. -/
theorem parts?_seq_part {name : Part} (hparts : p.hasParts = false) :
    (seq (part name p) q).parts? previous text = (p.takenBefore? q.parts? previous text).map
      fun (taken, parts) => (name, taken) :: parts := by
  rw [parts?_seq_eq_findSome?, takenBefore?, ways, List.findSome?_map, List.map_findSome?]
  refine findSome?_congr_of_mem fun found hfound => ?_
  rw [Function.comp_apply, Function.comp_apply, Match.named, parts_eq_nil hparts hfound,
    Option.map_map]
  rfl

/-- The parts of one of two patterns are those of the first one if it matches. -/
theorem parts?_seq_or : (seq (or p q) r).parts? previous text =
    ((seq p r).parts? previous text).or ((seq q r).parts? previous text) := by
  rw [parts?_seq_eq_findSome?, ways, List.findSome?_append, ← parts?_seq_eq_findSome?,
    ← parts?_seq_eq_findSome?]

/-- A named part that is one of two patterns. -/
theorem parts?_seq_part_or {name : Part} : (seq (part name (or p q)) r).parts? previous text =
    ((seq (part name p) r).parts? previous text).or ((seq (part name q) r).parts? previous text) := by
  rw [← parts?_seq_or, parts?_seq_eq_findSome?, parts?_seq_eq_findSome?, ways, ways, ways,
    List.map_append, ways, ways]

/-- A pattern of several ones matches them one behind the other. -/
theorem parts?_seq_seq : (seq (seq p q) r).parts? previous text =
    (seq p (seq q r)).parts? previous text := by
  have hways : (seq (seq p q) r).ways previous text = (seq p (seq q r)).ways previous text := by
    rw [ways, ways, List.flatMap_assoc]
    refine List.flatMap_congr fun first _ => ?_
    rw [ways, List.flatMap_map, List.map_flatMap]
    refine List.flatMap_congr fun second _ => ?_
    rw [Match.append, lastOr_append, List.map_map]
    refine List.map_congr_left fun third _ => ?_
    simp only [Match.append, List.append_assoc, Function.comp_apply]
  rw [parts?, first?, hways, parts?, first?]

/-- Only what the second pattern finds matters behind the first one. -/
theorem parts?_seq_congr (h : ∀ previous text, q.parts? previous text = r.parts? previous text) :
    (seq p q).parts? previous text = (seq p r).parts? previous text := by
  simp only [parts?_seq_eq_findSome?, h]

/-- A pattern that takes nothing in front of another one makes no difference. -/
theorem parts?_seq_of_empty (h : p.ways previous text = [.empty text]) :
    (seq p q).parts? previous text = q.parts? previous text := by
  rw [parts?_seq_eq_findSome?, h, List.findSome?_singleton, Match.empty]
  exact Option.map_id'

/-- Nothing in front of a pattern makes no difference. -/
theorem parts?_seq_nothing : (seq nothing q).parts? previous text = q.parts? previous text :=
  parts?_seq_of_empty rfl

/-- Several patterns in front of another one. -/
theorem parts?_seq_all (patterns : List (Pattern Part)) :
    (seq (all patterns) q).parts? previous text = (patterns.foldr seq q).parts? previous text := by
  induction patterns generalizing previous text with
  | nil => exact parts?_seq_nothing
  | cons p patterns ih =>
    rw [all, List.foldr, parts?_seq_seq]
    exact parts?_seq_congr fun _ _ => ih

/-- A pattern that may be left out in front of another one. -/
theorem parts?_seq_optional : (seq (optional p) q).parts? previous text =
    ((seq p q).parts? previous text).or (q.parts? previous text) := by
  rw [optional, parts?_seq_or, parts?_seq_nothing]

/-- The start of a line in front of a pattern. -/
theorem parts?_seq_lineStart : (seq lineStart q).parts? previous text =
    if startsLine previous then q.parts? previous text else none := by
  split
  · rename_i hstart
    exact parts?_seq_of_empty (by rw [ways, if_pos hstart])
  · rename_i hwithin
    rw [parts?_seq_eq_findSome?, ways, if_neg hwithin, List.findSome?_nil]

/-- The end of a line in front of a pattern. -/
theorem parts?_seq_lineEnd : (seq lineEnd q).parts? previous text =
    if endsLine text then q.parts? previous text else none := by
  split
  · rename_i hend
    exact parts?_seq_of_empty (by rw [ways, if_pos hend])
  · rename_i hwithin
    rw [parts?_seq_eq_findSome?, ways, if_neg hwithin, List.findSome?_nil]

/-- Nothing has no named parts. -/
theorem parts?_nothing : (nothing : Pattern Part).parts? previous text = some [] := rfl

/-- One character does not match at the end of the text. -/
theorem takenBefore?_one_nil {accepts : Char → Bool} :
    (one accepts : Pattern Part).takenBefore? next previous [] = none := by
  rfl

/-- One character is taken if it is accepted. -/
theorem takenBefore?_one_cons {accepts : Char → Bool} (c : Char) :
    (one accepts : Pattern Part).takenBefore? next previous (c :: text) =
      if accepts c then (next (some c) text).map ([c], ·) else none := by
  rw [takenBefore?, ways]
  split
  · rw [List.findSome?_singleton]
    rfl
  · rfl

/-- A character in front of a pattern. -/
theorem parts?_seq_char_cons {c d : Char} : (seq (char c) q).parts? previous (d :: text) =
    if d = c then q.parts? (some d) text else none := by
  rw [parts?_seq rfl, char, takenBefore?_one_cons]
  simp only [beq_iff_eq]
  split
  · cases q.parts? (some d) text <;> rfl
  · rfl

/-- No character stands at the end of the text. -/
theorem parts?_seq_char_nil {c : Char} : (seq (char c) q).parts? previous [] = none := by
  rw [parts?_seq rfl, char, takenBefore?_one_nil, Option.map_none]

/-- A character in front of a pattern is recognised, and the pattern stands behind it. -/
theorem parts?_seq_char {c : Char} : (seq (char c) q).parts? previous text =
    (after? [c] text).bind (q.parts? (some c)) := by
  cases text with
  | nil =>
    rw [parts?_seq_char_nil]
    rfl
  | cons d rest =>
    rw [parts?_seq_char_cons, after?]
    by_cases hd : d = c
    · rw [if_pos hd, if_pos (by simp [hd]), hd]
      rfl
    · rw [if_neg hd, if_neg (by simpa using Ne.symm hd)]
      rfl

/-- A character in front of a pattern is the first one of the text. -/
theorem parts?_seq_char_eq_some_iff {c : Char} {parts : List (Part × List Char)} :
    (seq (char c) q).parts? previous text = some parts ↔
      ∃ rest, text = c :: rest ∧ q.parts? (some c) rest = some parts := by
  cases text with
  | nil => simp [parts?_seq_char_nil]
  | cons d text =>
    rw [parts?_seq_char_cons]
    by_cases hd : d = c <;> simp [hd]

/-- Two patterns take what the first one takes and what the second one takes. -/
theorem takenBefore?_seq : (seq p q).takenBefore? next previous text =
    (p.takenBefore? (q.takenBefore? next) previous text).map
      fun (first, second, given) => (first ++ second, given) := by
  rw [takenBefore?, takenBefore?, ways, ← List.head?_filterMap, List.filterMap_flatMap,
    List.head?_flatMap, List.map_findSome?]
  refine findSome?_congr_of_mem fun found _ => ?_
  rw [List.head?_filterMap, List.findSome?_map, Function.comp_apply, takenBefore?, Option.map_map,
    List.map_findSome?]
  refine findSome?_congr_of_mem fun more _ => ?_
  simp only [Function.comp_apply, Match.append, Option.map_map, lastOr_append]
  rfl

/-- Nothing is taken in front of what follows. -/
theorem takenBefore?_nothing : (nothing : Pattern Part).takenBefore? next previous text =
    (next previous text).map ([], ·) := by
  rw [takenBefore?, ways, List.findSome?_singleton]
  rfl

/-- The second alternative is taken if there is no way to go on behind the first one. -/
theorem takenBefore?_or : (or p q).takenBefore? next previous text =
    (p.takenBefore? next previous text).or (q.takenBefore? next previous text) := by
  rw [takenBefore?, ways, List.findSome?_append]
  rfl

end Steps

section Run

variable {accepts blank : Char → Bool} {previous : Option Char} {text : List Char}
  {next : Option Char → List Char → Option β}

/-- A repeated pattern is matched once and then again, or it takes nothing. -/
theorem ways_many {body : Pattern Part} (greedy : Bool) (hskip : ∀ next, body.maySkip next = false) :
    (many greedy body).ways previous text =
      arrange greedy ((seq body (many greedy body)).ways previous text) (.empty text) := by
  rw [ways, ways, repeated]
  refine congrArg (arrange greedy · _) (List.flatMap_congr fun found hfound => ?_)
  have htaken := List.length_pos_iff.mpr (taken_ne_nil hskip hfound)
  have hlength : found.rest.length < text.length := by
    rw [eq_append_of_mem_ways hfound, List.length_append]
    omega
  rw [if_pos hlength, ways]

/-- A greedy pattern is left only if there is no way to go on behind another round. -/
theorem takenBefore?_greedy {body : Pattern Part} (hskip : ∀ next, body.maySkip next = false) :
    (many true body).takenBefore? next previous text =
      ((seq body (many true body)).takenBefore? next previous text).or
        ((next previous text).map ([], ·)) := by
  rw [takenBefore?, ways_many true hskip, arrange, if_pos rfl, List.findSome?_append,
    List.findSome?_singleton]
  rfl

/-- A pattern that is not greedy is left if there is a way to go on. -/
theorem takenBefore?_lazy {body : Pattern Part} (hskip : ∀ next, body.maySkip next = false) :
    (many false body).takenBefore? next previous text =
      ((next previous text).map ([], ·)).or
        ((seq body (many false body)).takenBefore? next previous text) := by
  rw [takenBefore?, ways_many false hskip, arrange, if_neg Bool.false_ne_true,
    ← List.singleton_append, List.findSome?_append, List.findSome?_singleton]
  rfl

/-- There is no way to go on behind a repeated pattern if there is none behind a round or before it. -/
theorem takenBefore?_many_eq_none_iff {body : Pattern Part} {greedy : Bool}
    (hskip : ∀ next, body.maySkip next = false) :
    (many greedy body).takenBefore? next previous text = none ↔
      (seq body (many greedy body)).takenBefore? next previous text = none ∧
        next previous text = none := by
  cases greedy
  · rw [takenBefore?_lazy hskip, Option.or_eq_none_iff, Option.map_eq_none_iff, and_comm]
  · rw [takenBefore?_greedy hskip, Option.or_eq_none_iff, Option.map_eq_none_iff]

/-- A run is longer by a character that is accepted. -/
theorem takenBefore?_seq_one_cons {p : Pattern Part} {c : Char} (hc : accepts c = true) :
    (seq (one accepts) p).takenBefore? next previous (c :: text) =
      (p.takenBefore? next (some c) text).map fun (taken, given) => (c :: taken, given) := by
  rw [takenBefore?_seq, takenBefore?_one_cons, if_pos hc, Option.map_map]
  rfl

/-- A run does not go on at the end of the text. -/
theorem takenBefore?_seq_one_nil {p : Pattern Part} :
    (seq (one accepts) p).takenBefore? next previous [] = none := by
  rw [takenBefore?_seq, takenBefore?_one_nil]
  rfl

/-- A run does not go on at a character that is not accepted. -/
theorem takenBefore?_seq_one_of_reject {p : Pattern Part} {c : Char} (hc : accepts c = false) :
    (seq (one accepts) p).takenBefore? next previous (c :: text) = none := by
  rw [takenBefore?_seq, takenBefore?_one_cons, if_neg (by simp [hc])]
  rfl

/-- A greedy run is the longest one, if there is a way to go on behind it wherever there is one behind a
shorter run. -/
theorem takenBefore?_run (hlonger : ∀ previous c rest, c :: rest <:+ text → accepts c = true →
      next (some c) rest = none → next previous (c :: rest) = none) :
    (many true (one accepts) : Pattern Part).takenBefore? next previous text =
      (next (lastOr previous (text.takeWhile accepts)) (text.dropWhile accepts)).map
        (text.takeWhile accepts, ·) := by
  induction text generalizing previous with
  | nil =>
    rw [takenBefore?_greedy fun _ => rfl, takenBefore?_seq_one_nil, Option.none_or]
    rfl
  | cons c text ih =>
    by_cases hc : accepts c = true
    · have hmore := @ih (some c) fun previous d rest hrest =>
        hlonger previous d rest (hrest.trans (List.suffix_cons c text))
      rw [takenBefore?_greedy fun _ => rfl, takenBefore?_seq_one_cons hc, List.takeWhile_cons_of_pos hc,
        List.dropWhile_cons_of_pos hc, lastOr_cons]
      cases hfound : (many true (one accepts) : Pattern Part).takenBefore? next (some c) text with
      | none =>
        have hnone := ((takenBefore?_many_eq_none_iff fun _ => rfl).mp hfound).2
        rw [hfound] at hmore
        rw [hlonger previous c text List.suffix_rfl hc hnone, Option.map_eq_none_iff.mp hmore.symm]
        rfl
      | some found =>
        obtain ⟨given, hgiven, rfl⟩ := Option.map_eq_some_iff.mp (hmore.symm.trans hfound)
        rw [hgiven]
        rfl
    · rw [takenBefore?_greedy fun _ => rfl, takenBefore?_seq_one_of_reject (by simpa using hc),
        Option.none_or, List.takeWhile_cons_of_neg hc, List.dropWhile_cons_of_neg hc]
      rfl

/-- What is found behind a greedy run is what is found in front of it, if behind a longer one there is
nothing else. -/
theorem map_takenBefore?_run (f : β → γ)
    (hlonger : ∀ previous c rest, c :: rest <:+ text → accepts c = true →
      next (some c) rest = none ∨
        (next previous (c :: rest)).map f = (next (some c) rest).map f) :
    ((many true (one accepts) : Pattern Part).takenBefore? next previous text).map
        (fun found => f found.2) = (next previous text).map f := by
  induction text generalizing previous with
  | nil =>
    rw [takenBefore?_greedy fun _ => rfl, takenBefore?_seq_one_nil, Option.none_or, Option.map_map]
    rfl
  | cons c text ih =>
    rw [takenBefore?_greedy fun _ => rfl]
    by_cases hc : accepts c = true
    · have hmore := @ih (some c) fun previous d rest hrest =>
        hlonger previous d rest (hrest.trans (List.suffix_cons c text))
      rw [takenBefore?_seq_one_cons hc, Option.map_or, Option.map_map, Option.map_map,
        Function.comp_def, Function.comp_def, hmore]
      rcases hlonger previous c text List.suffix_rfl hc with hnone | heq
      · rw [hnone, Option.map_none, Option.none_or]
      · rw [heq, Option.or_self]
    · rw [takenBefore?_seq_one_of_reject (by simpa using hc), Option.none_or, Option.map_map]
      rfl

/-- A run of some of the characters of a longer run ends in it, or the longer one follows it at once. -/
theorem dropWhile_eq_append (hblank : ∀ c, blank c = true → accepts c = true) (text : List Char) :
    text.dropWhile blank = (text.takeWhile accepts).dropWhile blank ++ text.dropWhile accepts := by
  induction text with
  | nil => rfl
  | cons c text ih =>
    by_cases hc : accepts c = true
    · rw [List.takeWhile_cons_of_pos hc, List.dropWhile_cons_of_pos hc]
      by_cases hc' : blank c = true
      · rw [List.dropWhile_cons_of_pos hc', List.dropWhile_cons_of_pos hc', ih]
      · rw [List.dropWhile_cons_of_neg hc', List.dropWhile_cons_of_neg hc', List.cons_append,
          List.takeWhile_append_dropWhile]
    · rw [List.takeWhile_cons_of_neg hc, List.dropWhile_cons_of_neg hc,
        List.dropWhile_cons_of_neg fun h => hc (hblank c h)]
      rfl

/-- A run that is not greedy, and blanks behind it: together they are the longest run if what follows
takes none of its characters, and the blanks are those at its end. -/
theorem takenBefore?_run_blanks (hblank : ∀ c, blank c = true → accepts c = true)
    (hreject : ∀ previous c rest, accepts c = true → next previous (c :: rest) = none) :
    (many false (one accepts) : Pattern Part).takenBefore? (fun previous text =>
        ((many true (one blank) : Pattern Part).takenBefore? next previous text).map Prod.snd)
        previous text =
      (next (lastOr previous (text.takeWhile accepts)) (text.dropWhile accepts)).map
        (dropEndWhile blank (text.takeWhile accepts), ·) := by
  have hblanks (previous : Option Char) (text : List Char) :
      ((many true (one blank) : Pattern Part).takenBefore? next previous text).map Prod.snd =
        next (lastOr previous (text.takeWhile blank)) (text.dropWhile blank) := by
    rw [takenBefore?_run fun previous c rest _ hc _ => hreject previous c rest (hblank c hc)]
    cases next (lastOr previous (text.takeWhile blank)) (text.dropWhile blank) <;> rfl
  simp only [hblanks]
  induction text generalizing previous with
  | nil =>
    rw [takenBefore?_lazy fun _ => rfl, takenBefore?_seq_one_nil, Option.or_none]
    rfl
  | cons c text ih =>
    rw [takenBefore?_lazy fun _ => rfl]
    by_cases hc : accepts c = true
    · rw [takenBefore?_seq_one_cons hc, ih, dropWhile_eq_append hblank, List.takeWhile_cons_of_pos hc,
        List.dropWhile_cons_of_pos hc, lastOr_cons, Option.map_map]
      cases hrest : (c :: text.takeWhile accepts).dropWhile blank with
      | nil =>
        -- The run is blank to its end, so it can be left at once.
        have hdrop : (c :: text).dropWhile blank = text.dropWhile accepts := by
          rw [dropWhile_eq_append hblank, List.takeWhile_cons_of_pos hc, hrest,
            List.dropWhile_cons_of_pos hc, List.nil_append]
        have htake : (c :: text).takeWhile blank = c :: text.takeWhile accepts := by
          refine (List.append_left_inj (text.dropWhile accepts)).mp ?_
          rw [List.cons_append, List.takeWhile_append_dropWhile, ← hdrop,
            List.takeWhile_append_dropWhile]
        have hend : dropEndWhile blank (c :: text.takeWhile accepts) = [] :=
          dropEndWhile_append_of_all [] (List.dropWhile_eq_nil_iff.mp hrest)
        rw [htake, hend, lastOr_cons, List.nil_append]
        cases next (lastOr (some c) (text.takeWhile accepts)) (text.dropWhile accepts) <;> rfl
      | cons d more =>
        -- There is more than blanks in the run, and nothing goes on in front of it.
        have hd : accepts d = true := by
          have hmem : d ∈ c :: text.takeWhile accepts :=
            (List.dropWhile_sublist blank).subset (hrest ▸ List.mem_cons_self)
          exact (List.mem_cons.mp hmem).elim (fun heq => heq ▸ hc) List.mem_takeWhile_imp
        rw [List.cons_append, hreject _ d _ hd, Option.map_none, Option.none_or,
          dropEndWhile_cons (by simp [hrest])]
        rfl
    · have hc' : ¬blank c = true := fun h => hc (hblank c h)
      rw [takenBefore?_seq_one_of_reject (by simpa using hc), Option.or_none,
        List.takeWhile_cons_of_neg hc, List.dropWhile_cons_of_neg hc,
        List.takeWhile_cons_of_neg hc', List.dropWhile_cons_of_neg hc']
      rfl

/-- What a pattern takes is the start of the text, and `next` gives something behind it. -/
theorem exists_of_takenBefore?_eq_some {p : Pattern Part} {taken : List Char} {given : β}
    (h : p.takenBefore? next previous text = some (taken, given)) :
    ∃ rest, text = taken ++ rest ∧ next (lastOr previous taken) rest = some given := by
  obtain ⟨found, hfound, hgiven⟩ := List.exists_of_findSome?_eq_some h
  obtain ⟨value, hvalue, heq⟩ := Option.map_eq_some_iff.mp hgiven
  obtain ⟨rfl, rfl⟩ := Prod.mk.inj heq
  exact ⟨found.rest, eq_append_of_mem_ways hfound, hvalue⟩

/-- Every part of a run is a way to match it. -/
theorem takenBefore?_run_ne_none {greedy : Bool} {taken rest : List Char}
    (htaken : ∀ c ∈ taken, accepts c = true) (hnext : next (lastOr previous taken) rest ≠ none) :
    (many greedy (one accepts) : Pattern Part).takenBefore? next previous (taken ++ rest) ≠ none := by
  induction taken generalizing previous with
  | nil =>
    rw [Ne, takenBefore?_many_eq_none_iff fun _ => rfl]
    exact fun hnone => hnext hnone.2
  | cons c taken ih =>
    rw [List.forall_mem_cons] at htaken
    rw [List.cons_append, Ne, takenBefore?_many_eq_none_iff fun _ => rfl,
      takenBefore?_seq_one_cons htaken.1, Option.map_eq_none_iff]
    exact fun hnone => ih htaken.2 (by rwa [← lastOr_cons previous]) hnone.1

section Parts

variable {q : Pattern Part}

/-- The longest run stands in front of a pattern that matches behind it wherever it matches behind a
shorter run. -/
theorem parts?_seq_run (hlonger : ∀ previous c rest, c :: rest <:+ text → accepts c = true →
      q.parts? (some c) rest = none → q.parts? previous (c :: rest) = none) :
    (seq (many true (one accepts)) q).parts? previous text =
      q.parts? (lastOr previous (text.takeWhile accepts)) (text.dropWhile accepts) := by
  rw [parts?_seq rfl, takenBefore?_run hlonger]
  cases q.parts? (lastOr previous (text.takeWhile accepts)) (text.dropWhile accepts) <;> rfl

/-- A run in front of a pattern may be left to it, if the pattern then finds the same or something
where it would find nothing behind the run. -/
theorem map_parts?_seq_run (f : List (Part × List Char) → γ)
    (hlonger : ∀ previous c rest, c :: rest <:+ text → accepts c = true →
      q.parts? (some c) rest = none ∨
        (q.parts? previous (c :: rest)).map f = (q.parts? (some c) rest).map f) :
    ((seq (many true (one accepts)) q).parts? previous text).map f =
      (q.parts? previous text).map f := by
  rw [parts?_seq rfl, Option.map_map]
  exact map_takenBefore?_run f hlonger

/-- A run and blanks behind it in front of a pattern that takes none of their characters. -/
theorem takenBefore?_parts?_run_blanks (hblank : ∀ c, blank c = true → accepts c = true)
    (hreject : ∀ previous c rest, accepts c = true → q.parts? previous (c :: rest) = none) :
    (many false (one accepts) : Pattern Part).takenBefore? (seq (many true (one blank)) q).parts?
        previous text =
      (q.parts? (lastOr previous (text.takeWhile accepts)) (text.dropWhile accepts)).map
        (dropEndWhile blank (text.takeWhile accepts), ·) := by
  have hblanks : (seq (many true (one blank)) q).parts? = fun previous text =>
      ((many true (one blank) : Pattern Part).takenBefore? q.parts? previous text).map Prod.snd := by
    funext previous text
    exact parts?_seq rfl
  rw [hblanks, takenBefore?_run_blanks hblank hreject]

end Parts

end Run

section Literal

variable {previous : Option Char} {text : List Char} {next : Option Char → List Char → Option β}

/-- A given word. -/
def literal (word : List Char) : Pattern Part := all (word.map char)

/-- A word has no named parts. -/
theorem hasParts_literal (word : List Char) : (literal word : Pattern Part).hasParts = false := by
  induction word with
  | nil => rfl
  | cons w word ih => exact ih

/-- A word is taken where it stands in front of the text. -/
theorem takenBefore?_literal (word : List Char) :
    (literal word : Pattern Part).takenBefore? next previous text =
      (after? word text).bind fun rest => (next (lastOr previous word) rest).map (word, ·) := by
  induction word generalizing previous text with
  | nil => exact takenBefore?_nothing
  | cons w word ih =>
    change (seq (char w) (literal word)).takenBefore? next previous text = _
    cases text with
    | nil => exact takenBefore?_seq_one_nil
    | cons d text =>
      rw [after?]
      by_cases hd : w = d
      · subst hd
        rw [char, takenBefore?_seq_one_cons (by simp), ih, if_pos (by simp), lastOr_cons]
        cases after? word text with
        | none => rfl
        | some rest =>
          simp only [Option.bind_some, Option.map_map]
          rfl
      · rw [char, takenBefore?_seq_one_of_reject (by simpa using Ne.symm hd), if_neg (by simpa using hd)]
        rfl

/-- The shortest text in front of a word is the one before its first occurrence. -/
theorem takenBefore?_shortest (word : List Char) (f : List Char → β) :
    (many false (one fun _ => true) : Pattern Part).takenBefore? (fun _ text => (after? word text).map f)
        previous text =
      (cut? word text).map fun found => (found.1, f found.2) := by
  induction text generalizing previous with
  | nil =>
    rw [takenBefore?_lazy fun _ => rfl, takenBefore?_seq_one_nil, Option.or_none]
    cases word <;> rfl
  | cons c text ih =>
    rw [takenBefore?_lazy fun _ => rfl, takenBefore?_seq_one_cons rfl, ih, cut?]
    cases after? word (c :: text) with
    | some rest => rfl
    | none =>
      simp only [Option.map_none, Option.none_or, Option.map_map]
      rfl

/-- A name makes no difference to what is taken. -/
theorem takenBefore?_part {p : Pattern Part} (name : Part) :
    (part name p).takenBefore? next previous text = p.takenBefore? next previous text := by
  rw [takenBefore?, takenBefore?, ways, List.findSome?_map]
  rfl

/-- A pattern without named parts matches where it takes something. -/
theorem parts?_of_hasParts {p : Pattern Part} (hparts : p.hasParts = false) :
    p.parts? previous text = (p.takenBefore? (fun _ _ => some []) previous text).map Prod.snd := by
  rw [parts?, first?, takenBefore?]
  cases h : p.ways previous text with
  | nil => rfl
  | cons found others =>
    have hfound : found.parts = [] := parts_eq_nil hparts (h ▸ List.mem_cons_self)
    exact congrArg some hfound

/-- A word matches where it stands in front of the text. -/
theorem parts?_literal (word : List Char) :
    (literal word : Pattern Part).parts? previous text = (after? word text).map fun _ => [] := by
  rw [parts?_of_hasParts (hasParts_literal word), takenBefore?_literal]
  cases after? word text <;> rfl

/-- What follows the preferred way. -/
theorem map_rest_first? {p : Pattern Part} : (p.first? previous text).map Match.rest =
    (p.takenBefore? (fun _ rest => some rest) previous text).map Prod.snd := by
  rw [first?, takenBefore?]
  cases p.ways previous text <;> rfl

end Literal

end PlcTypes.Text.Pattern
