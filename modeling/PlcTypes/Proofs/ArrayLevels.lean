import PlcTypes.Proofs.ArrayPattern
import PlcTypes.Proofs.Success
import PlcTypes.Proofs.TypeSpelling

/-!
# Faults of array spellings

A spelling is a number of array levels around a leaf, which come off one by one as long as the
pattern of an array spelling matches what is left. Only the bounds of the levels can be wrong. The
bounds are read on the way in and compared on the way out. So of several faults the first
unreadable bound from outside is the one reported, and inverted bounds are reported only if every
bound can be read, those of the innermost such level.
-/

namespace PlcTypes

open Text Number Pattern

/-- The array levels of a spelling, the outermost first. -/
def arrayLevels (text : List Char) : List ArrayHead :=
  match h : arrayHead? (trim text) with
  | none => []
  | some head =>
    have : head.base.length < text.length :=
      Nat.lt_of_lt_of_le (arrayHead?_base_length h) (length_trim_le text)
    head :: arrayLevels head.base
termination_by text.length

/-- What is no array spelling has no array levels. -/
theorem arrayLevels_of_leaf {text : List Char} (h : arrayHead? (trim text) = none) :
    arrayLevels text = [] := by
  rw [arrayLevels]
  split
  · rfl
  · rename_i head heq
    simp [h] at heq

/-- An array spelling has one array level more than its base. -/
theorem arrayLevels_of_array {text : List Char} {head : ArrayHead}
    (h : arrayHead? (trim text) = some head) : arrayLevels text = head :: arrayLevels head.base := by
  rw [arrayLevels]
  split
  · rename_i heq
    simp [h] at heq
  · rename_i head' heq
    obtain rfl : head = head' := by simpa [h] using heq
    rfl

/-- The array levels that come off a text, the outermost first, as long as the pattern of an array
spelling matches what is left, without the white space around it. -/
inductive Peels : List Char → List ArrayHead → Prop where
  | leaf {text : List Char} (unmatched : arrayPattern.parts? none (trim text) = none) : Peels text []
  | level {text : List Char} {head : ArrayHead} {levels : List ArrayHead}
    (matched : arrayPattern.parts? none (trim text) = some head.parts)
    (inner : Peels head.base levels) : Peels text (head :: levels)

/-- The array levels of a spelling are those that come off it. -/
theorem peels_arrayLevels (text : List Char) : Peels text (arrayLevels text) := by
  fun_induction arrayLevels text with
  | case1 text hhead =>
    refine .leaf ?_
    rw [parts?_arrayPattern (isTrimmed_trim text), hhead, Option.map_none]
  | case2 text head hhead _ ih =>
    refine .level ?_ ih
    rw [parts?_arrayPattern (isTrimmed_trim text), hhead, Option.map_some]

namespace ArrayHead

/-- The texts of the two bounds of a level, in the order in which they are read. -/
def bounds (head : ArrayHead) : List (List Char) := [head.lower, head.upper]

/-- The bounds of a level say `lower` and `upper`. -/
def Reads (head : ArrayHead) (lower upper : Int64) : Prop :=
  readInt64 head.lower = some lower ∧ readInt64 head.upper = some upper

/-- What the bounds of a level say, if both can be read and the upper one is below the lower one. -/
def inverted? (head : ArrayHead) : Option (Int64 × Int64) :=
  match readInt64 head.lower, readInt64 head.upper with
  | some lower, some upper => if upper < lower then some (lower, upper) else none
  | _, _ => none

/-- A level is inverted if its bounds are readable and the wrong way round. -/
theorem inverted?_eq_some_iff {head : ArrayHead} {lower upper : Int64} :
    head.inverted? = some (lower, upper) ↔ head.Reads lower upper ∧ upper < lower := by
  unfold inverted? Reads
  cases readInt64 head.lower with
  | none => simp
  | some first =>
    cases readInt64 head.upper with
    | none => simp
    | some last =>
      by_cases h : last < first
      · simp only [h, if_true, Option.some.injEq, Prod.mk.injEq]
        constructor
        · rintro ⟨rfl, rfl⟩
          exact ⟨⟨rfl, rfl⟩, h⟩
        · exact fun heq => heq.1
      · simp only [h, if_false, reduceCtorEq, Option.some.injEq, false_iff, not_and]
        rintro ⟨rfl, rfl⟩
        exact h

/-- A level is not inverted if its bounds are in order whenever they can be read. -/
theorem inverted?_eq_none_iff {head : ArrayHead} :
    head.inverted? = none ↔ ∀ lower upper, head.Reads lower upper → lower ≤ upper := by
  rw [Option.eq_none_iff_forall_ne_some]
  constructor
  · intro h lower upper hreads
    rw [← Int64.not_lt]
    exact fun hlt => h (lower, upper) (inverted?_eq_some_iff.mpr ⟨hreads, hlt⟩)
  · rintro h ⟨lower, upper⟩ heq
    obtain ⟨hreads, hlt⟩ := inverted?_eq_some_iff.mp heq
    exact Int64.not_lt.mpr (h lower upper hreads) hlt

end ArrayHead

/-- The first text of a list that is no 64-bit integer. -/
def firstUnreadable? (bounds : List (List Char)) : Option (List Char) :=
  bounds.find? fun bound => (readInt64 bound).isNone

/-- The first unreadable bound stands behind readable ones. -/
theorem firstUnreadable?_eq_some_iff {bounds : List (List Char)} {bound : List Char} :
    firstUnreadable? bounds = some bound ↔ ∃ before behind, bounds = before ++ bound :: behind ∧
      (∀ earlier ∈ before, readInt64 earlier ≠ none) ∧ readInt64 bound = none := by
  rw [firstUnreadable?, List.find?_eq_some_iff_append]
  simp only [Option.isNone_iff_eq_none, Bool.not_eq_true', Option.isNone_eq_false_iff,
    Option.isSome_iff_ne_none]
  constructor
  · rintro ⟨hbound, before, behind, hsplit, hbefore⟩
    exact ⟨before, behind, hsplit, hbefore, hbound⟩
  · rintro ⟨before, behind, hsplit, hbefore, hbound⟩
    exact ⟨hbound, before, behind, hsplit, hbefore⟩

/-- There is no unreadable bound if all of them can be read. -/
theorem firstUnreadable?_eq_none_iff {bounds : List (List Char)} :
    firstUnreadable? bounds = none ↔ ∀ bound ∈ bounds, readInt64 bound ≠ none := by
  simp [firstUnreadable?]

/-- What the innermost inverted level says. -/
def innermostInverted? (levels : List ArrayHead) : Option (Int64 × Int64) :=
  levels.reverse.findSome? ArrayHead.inverted?

/-- The levels inside the innermost inverted one are in order. -/
theorem innermostInverted?_eq_some_iff {levels : List ArrayHead} {lower upper : Int64} :
    innermostInverted? levels = some (lower, upper) ↔
      ∃ outer level inner, levels = outer ++ level :: inner ∧ level.Reads lower upper ∧
        upper < lower ∧ ∀ within ∈ inner, ∀ first last, within.Reads first last → first ≤ last := by
  simp only [innermostInverted?, List.findSome?_eq_some_iff, ArrayHead.inverted?_eq_some_iff,
    ArrayHead.inverted?_eq_none_iff]
  constructor
  · rintro ⟨inner, level, outer, hsplit, ⟨hreads, hlt⟩, hinner⟩
    refine ⟨outer.reverse, level, inner.reverse, ?_, hreads, hlt, by simpa using hinner⟩
    rw [← List.reverse_reverse levels, hsplit]
    simp
  · rintro ⟨outer, level, inner, hsplit, hreads, hlt, hinner⟩
    exact ⟨inner.reverse, level, outer.reverse, by simp [hsplit], ⟨hreads, hlt⟩, by simpa using hinner⟩

/-- No level is inverted if all are in order. -/
theorem innermostInverted?_eq_none_iff {levels : List ArrayHead} :
    innermostInverted? levels = none ↔
      ∀ level ∈ levels, ∀ lower upper, level.Reads lower upper → lower ≤ upper := by
  simp [innermostInverted?, ArrayHead.inverted?_eq_none_iff]

/-- The fault to be reported of array levels: the first unreadable bound from outside, or else the
first inverted level from inside. -/
def fault? (levels : List ArrayHead) : Option BoundError :=
  match firstUnreadable? (levels.flatMap ArrayHead.bounds) with
  | some bound => some (.unreadable (String.ofList bound))
  | none => (innermostInverted? levels).map fun (lower, upper) => .inverted lower upper

/-- An unreadable bound is the fault if it is the first one from outside. -/
theorem fault?_eq_unreadable_iff {levels : List ArrayHead} {name : String} :
    fault? levels = some (.unreadable name) ↔
      ∃ before bound behind, levels.flatMap ArrayHead.bounds = before ++ bound :: behind ∧
        (∀ earlier ∈ before, readInt64 earlier ≠ none) ∧ readInt64 bound = none ∧
        name = String.ofList bound := by
  have hsplit (bound : List Char) := @firstUnreadable?_eq_some_iff (levels.flatMap ArrayHead.bounds) bound
  rw [fault?]
  cases hfirst : firstUnreadable? (levels.flatMap ArrayHead.bounds) with
  | some first =>
    simp only [Option.some.injEq, BoundError.unreadable.injEq]
    constructor
    · rintro rfl
      obtain ⟨before, behind, h, hbefore, hbound⟩ := (hsplit first).mp hfirst
      exact ⟨before, first, behind, h, hbefore, hbound, rfl⟩
    · rintro ⟨before, bound, behind, h, hbefore, hbound, rfl⟩
      have hagain := (hsplit bound).mpr ⟨before, behind, h, hbefore, hbound⟩
      rw [Option.some.inj (hfirst.symm.trans hagain)]
  | none =>
    constructor
    · simp
    · rintro ⟨before, bound, behind, h, -, hbound, -⟩
      exact absurd hbound (firstUnreadable?_eq_none_iff.mp hfirst bound (by simp [h]))

/-- Inverted bounds are the fault if every bound can be read and the levels inside are in order. -/
theorem fault?_eq_inverted_iff {levels : List ArrayHead} {lower upper : Int64} :
    fault? levels = some (.inverted lower upper) ↔
      (∀ level ∈ levels, ∀ bound ∈ level.bounds, readInt64 bound ≠ none) ∧
        ∃ outer level inner, levels = outer ++ level :: inner ∧ level.Reads lower upper ∧
          upper < lower ∧ ∀ within ∈ inner, ∀ first last, within.Reads first last → first ≤ last := by
  have hreadable := @firstUnreadable?_eq_none_iff (levels.flatMap ArrayHead.bounds)
  rw [List.forall_mem_flatMap] at hreadable
  rw [← innermostInverted?_eq_some_iff, ← hreadable, fault?]
  cases firstUnreadable? (levels.flatMap ArrayHead.bounds) with
  | some bound => simp
  | none =>
    rw [Option.map_eq_some_iff]
    simp

/-- There is a fault if and only if some level has an unreadable bound or inverted ones. -/
theorem exists_fault?_iff {levels : List ArrayHead} :
    (∃ error, fault? levels = some error) ↔ ∃ level ∈ levels,
      (∃ bound ∈ level.bounds, readInt64 bound = none) ∨
        ∃ lower upper, level.Reads lower upper ∧ upper < lower := by
  have hreadable := @firstUnreadable?_eq_none_iff (levels.flatMap ArrayHead.bounds)
  rw [List.forall_mem_flatMap] at hreadable
  have hnone : fault? levels = none ↔
      (∀ level ∈ levels, ∀ bound ∈ level.bounds, readInt64 bound ≠ none) ∧
        ∀ level ∈ levels, ∀ lower upper, level.Reads lower upper → lower ≤ upper := by
    rw [← innermostInverted?_eq_none_iff, ← hreadable, fault?]
    cases firstUnreadable? (levels.flatMap ArrayHead.bounds) <;> simp
  rw [← Option.ne_none_iff_exists', Ne, hnone, ← forall₂_and]
  simp only [not_forall, not_and_or, ne_eq, not_not, Int64.not_le, exists_prop]

/-- Without array levels there is no fault. -/
theorem fault?_nil : fault? [] = none := rfl

/-- A level put around others adds its unreadable bounds in front of their faults and its inverted
bounds behind them. -/
theorem fault?_cons (head : ArrayHead) (levels : List ArrayHead) :
    fault? (head :: levels) =
      match readInt64 head.lower, readInt64 head.upper with
      | none, _ => some (.unreadable (String.ofList head.lower))
      | some _, none => some (.unreadable (String.ofList head.upper))
      | some lower, some upper =>
        (fault? levels).or (if upper < lower then some (.inverted lower upper) else none) := by
  have hinverted : innermostInverted? (head :: levels) =
      (innermostInverted? levels).or head.inverted? := by
    simp [innermostInverted?, List.findSome?_append]
  rw [fault?, hinverted]
  simp only [firstUnreadable?, List.flatMap_cons, ArrayHead.bounds, List.cons_append, List.nil_append,
    List.find?_cons, fault?, ArrayHead.inverted?]
  cases readInt64 head.lower with
  | none => rfl
  | some lower =>
    cases readInt64 head.upper with
    | none => rfl
    | some upper =>
      simp only [Option.isNone_some]
      cases (levels.flatMap ArrayHead.bounds).find? fun bound => (readInt64 bound).isNone with
      | some bound => rfl
      | none =>
        cases innermostInverted? levels with
        | some level => rfl
        | none => by_cases h : upper < lower <;> simp [h]

namespace DataType

variable {leaf : List Char → DataType}

/-- Whatever the notation, reading fails with the fault of the array levels. -/
theorem decodeWith_eq_error_iff {text : List Char} {error : BoundError} :
    decodeWith leaf text = .error error ↔ fault? (arrayLevels text) = some error := by
  induction text using decodeWith.induct generalizing error with
  | case1 text hhead =>
    rw [decodeWith_of_leaf hhead, arrayLevels_of_leaf hhead, fault?_nil]
    simp
  | case2 text head hhead hshorter ih =>
    rw [decodeWith_of_array hhead, arrayLevels_of_array hhead, fault?_cons, readBound, readBound]
    cases readInt64 head.lower with
    | none => simp [bind, Except.bind]
    | some lower =>
      cases readInt64 head.upper with
      | none => simp [bind, Except.bind]
      | some upper =>
        -- the bounds are compared only if the base is without fault
        cases hbase : decodeWith leaf head.base with
        | error fault => simp [bind, Except.bind, ih.mp hbase]
        | ok base =>
          have hfault : fault? (arrayLevels head.base) = none := by
            rw [Option.eq_none_iff_forall_ne_some]
            intro fault hfault
            rw [ih.mpr hfault] at hbase
            cases hbase
          by_cases h : upper < lower <;> simp [bind, Except.bind, hfault, arrayOf, h]

/-- The array levels of a spelling are those that come off it as long as the pattern of an array
spelling matches. Reading fails if and only if a level has an unreadable bound or inverted ones. If some
bound is unreadable, the error names the first such bound of the outermost level with one, and otherwise
the bounds of the innermost inverted level. -/
theorem ofSpelling_error (text : String) :
    Peels text.toList (arrayLevels text.toList) ∧
    ((∃ error, ofSpelling text = .error error) ↔ ∃ level ∈ arrayLevels text.toList,
      (∃ bound ∈ level.bounds, readInt64 bound = none) ∨
        ∃ lower upper, level.Reads lower upper ∧ upper < lower) ∧
    (∀ name, ofSpelling text = .error (.unreadable name) ↔ ∃ before bound behind,
      (arrayLevels text.toList).flatMap ArrayHead.bounds = before ++ bound :: behind ∧
        (∀ earlier ∈ before, readInt64 earlier ≠ none) ∧ readInt64 bound = none ∧
        name = String.ofList bound) ∧
    ∀ lower upper, ofSpelling text = .error (.inverted lower upper) ↔
      (∀ level ∈ arrayLevels text.toList, ∀ bound ∈ level.bounds, readInt64 bound ≠ none) ∧
        ∃ outer level inner, arrayLevels text.toList = outer ++ level :: inner ∧
          level.Reads lower upper ∧ upper < lower ∧
          ∀ within ∈ inner, ∀ first last, within.Reads first last → first ≤ last := by
  refine ⟨peels_arrayLevels text.toList, ?_, fun name => decodeWith_eq_error_iff.trans fault?_eq_unreadable_iff,
    fun lower upper => decodeWith_eq_error_iff.trans fault?_eq_inverted_iff⟩
  rw [← exists_fault?_iff]
  exact exists_congr fun error => decodeWith_eq_error_iff

end DataType

end PlcTypes
