import PlcTypes.Proofs.Format.RockwellType

/-!
# Sizes of arrays in Rockwell exports

An array is spelled by its number of elements whenever that fits 64 bits, but it is read back only
if the number is a 64-bit integer. Between the two limits the spelling is refused. Otherwise a type
is read back with the number of elements of every array level, whether an array is spelled by it or
by its bounds.
-/

namespace PlcTypes

open Text Number

namespace DataType

/-- The number of elements of every array level, if it fits 64 bits, the outermost first. -/
def counts : DataType → List (Option Nat)
  | array base lower upper => (array base lower upper).elementCount? :: base.counts
  | _ => []

/-- The type under all array levels. -/
def element : DataType → DataType
  | array base _ _ => base.element
  | type => type

/-- Numbering its arrays from zero leaves a type with its numbers of elements and with the type
under its arrays. -/
theorem zeroBased_spec {type : DataType} (h : type.IsSizable) :
    type.zeroBased.counts = type.counts ∧ type.zeroBased.element = type.element := by
  induction type with
  | scalar kind => exact ⟨rfl, rfl⟩
  | named name => exact ⟨rfl, rfl⟩
  | array base lower upper ih =>
    cases hcount : (array base lower upper).elementCount? with
    | none =>
      rw [zeroBased, hcount]
      exact ⟨rfl, rfl⟩
    | some count =>
      obtain ⟨hsmall, hbase⟩ := h count hcount
      obtain ⟨hcounts, helement⟩ := ih hbase
      rw [zeroBased, hcount]
      simp only [counts, element, hcount, hcounts, helement,
        elementCount?_zeroBased (elementCount?_bounds hcount).1 hsmall, and_self]

end DataType

namespace Rockwell

open DataType

/-- A written type with a level of more elements than a 64-bit integer can tell is refused for the
number of elements of such a level. -/
theorem readType_of_not_isSizable {type : DataType} (hordered : type.IsOrdered)
    (hname : type.NameSatisfies IsReference) (h : ¬type.IsSizable) :
    ∃ count, 2 ^ 63 ≤ count ∧ some count ∈ type.counts ∧
      readType (writeType type).1.toList = .error (.unreadable (toString count)) := by
  induction type with
  | scalar kind => exact absurd trivial h
  | named name => exact absurd trivial h
  | array base lower upper ih =>
    cases hcount : (array base lower upper).elementCount? with
    | none =>
      refine absurd (fun count hsome => ?_) h
      rw [hcount] at hsome
      exact absurd hsome (Option.not_mem_none count)
    | some count =>
      have hbaseName : base.NameSatisfies IsReference := hname
      by_cases hbase : base.IsSizable
      · -- the level itself is the one too large
        have hlarge : 2 ^ 63 ≤ count := by
          by_contra hsmall
          refine h fun other hother => ?_
          rw [hcount, Option.mem_some_iff] at hother
          exact ⟨by omega, hbase⟩
        refine ⟨count, hlarge, by rw [counts, hcount]; exact List.mem_cons_self, ?_⟩
        rw [readType_writeType_array hbaseName hcount,
          readType_writeType hordered.2 hbase hbaseName, Except.bind, sized_of_large _ hlarge]
      · obtain ⟨inner, hlarge, hmem, herror⟩ := ih hordered.2 hname hbase
        refine ⟨inner, hlarge, List.mem_cons_of_mem _ hmem, ?_⟩
        rw [readType_writeType_array hbaseName hcount, herror, Except.bind]

/-- Whether a written type is read back depends on the number of elements of its levels alone: if a
64-bit integer can tell each of them that is spelled out, the type has the same numbers of elements
and the same type under them again, and otherwise it is refused for one of the numbers. -/
theorem typeSizes_roundTrip {type : DataType} (hordered : type.IsOrdered)
    (hname : type.NameSatisfies IsReference) :
    (type.IsSizable → ∃ read, readType (writeType type).1.toList = .ok read ∧
      read.counts = type.counts ∧ read.element = type.element) ∧
    (¬type.IsSizable → ∃ count, 2 ^ 63 ≤ count ∧ some count ∈ type.counts ∧
      readType (writeType type).1.toList = .error (.unreadable (toString count))) := by
  constructor
  · intro hsizable
    exact ⟨type.zeroBased, readType_writeType hordered hsizable hname, zeroBased_spec hsizable⟩
  · exact readType_of_not_isSizable hordered hname

/-- A grid that no 64-bit number counts, of rows that a 64-bit number but no 64-bit integer counts. -/
def grid : DataType :=
  .array (.array (.array (.scalar .real) 1 3) Int64.minValue (-1)) Int64.minValue Int64.maxValue

/-- The rows of the grid are spelled by their bounds, so the grid keeps its numbers of elements. -/
theorem grid_sizes : ∃ read, readType (writeType grid).1.toList = .ok read ∧
    read.counts = [none, some (2 ^ 63), some 3] ∧ read.element = .scalar .real :=
  (typeSizes_roundTrip (show grid.IsOrdered by decide) trivial).1 (by decide)

/-- Numbers of an array from the least 64-bit integer up to `-1` are written but not read. -/
theorem row_unreadable : readType (writeType (.array (.scalar .int) Int64.minValue (-1))).1.toList =
    .error (.unreadable "9223372036854775808") := by
  have hcount : (array (.scalar .int) Int64.minValue (-1)).elementCount? = some (2 ^ 63) := by decide
  have hbase : readType (writeType (.scalar .int)).1.toList = .ok (.scalar .int) :=
    readType_writeType (show (DataType.scalar .int).IsOrdered from trivial) trivial trivial
  have hreport : toString (2 ^ 63 : Nat) = "9223372036854775808" := by decide
  have hname : (DataType.scalar .int).NameSatisfies IsReference := trivial
  rw [readType_writeType_array hname hcount, hbase, Except.bind, sized_of_large _ le_rfl, hreport]

end Rockwell

end PlcTypes
