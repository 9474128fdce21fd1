import PlcTypes.Proofs.Conversion
import PlcTypes.Proofs.Sound
import PlcTypes.Session

/-!
# What holds throughout a session

Whatever an edit is given, the definition it makes of a sound one is sound, and an edit that fails
makes none. So the definition at hand is sound after any series of edits that starts with none.
-/

namespace PlcTypes.Session

open Yaml

variable {current : Option Definition} {d : Definition} {codec : Codec}

/-- What is required is there. -/
theorem required_eq_ok_iff : required current = .ok d ↔ current = some d := by
  cases current with
  | none => simp [required]
  | some other => simp [required]

/-- A definition from the catalogue is that of a standard type. -/
theorem exists_of_standardDefinition {key : String} (h : standardDefinition key = .ok d) :
    ∃ type : StandardType, type.definition = d := by
  rw [standardDefinition] at h
  split at h
  · rename_i type _
    exact ⟨type, Except.ok.inj h⟩
  · simp at h

/-- A definition that was imported is sound. -/
theorem isSound_of_toDefinition {text key : String} (h : Conversion.toDefinition text key = .ok d) :
    d.IsSound := by
  obtain ⟨vendor, read, -, hvendor, hread⟩ := Conversion.exists_of_toDefinition h
  exact Vendor.isSound_of_importer hvendor hread

/-- Every edit that succeeds makes a sound definition, if the one at hand is sound. -/
theorem Edit.isSound_of_result (hcurrent : ∀ d ∈ current, d.IsSound) {edit : Edit}
    (h : edit.result current codec = .ok d) : d.IsSound := by
  cases edit with
  | start name description =>
    rw [← Except.ok.inj h]
    exact Definition.isSound_bare name description
  | load draft =>
    rw [result, mapError_eq_ok_iff] at h
    exact Draft.isSound_of_build h
  | standard key =>
    obtain ⟨type, rfl⟩ := exists_of_standardDefinition h
    exact type.isSound_definition
  | read text vendorKey =>
    rw [result, mapError_eq_ok_iff] at h
    exact isSound_of_toDefinition h
  | decode text =>
    rw [result, mapError_eq_ok_iff] at h
    exact Definition.isSound_of_ofUniversal h
  | addMember draft =>
    obtain ⟨before, hbefore, h⟩ := bind_eq_ok_iff.mp h
    obtain ⟨member, hmember, h⟩ := bind_eq_ok_iff.mp h
    rw [← Except.ok.inj h]
    exact (hcurrent before (required_eq_ok_iff.mp hbefore)).push
      (MemberDraft.isSound_of_build (mapError_eq_ok_iff.mp hmember))
  | rename name =>
    obtain ⟨before, hbefore, h⟩ := bind_eq_ok_iff.mp h
    rw [← Except.ok.inj h]
    exact (hcurrent before (required_eq_ok_iff.mp hbefore)).renamed name
  | reread =>
    obtain ⟨before, -, h⟩ := bind_eq_ok_iff.mp h
    rw [mapError_eq_ok_iff] at h
    exact Definition.isSound_of_ofUniversal h
  | pass writerKey readerKey =>
    obtain ⟨before, -, h⟩ := bind_eq_ok_iff.mp h
    obtain ⟨text, -, h⟩ := bind_eq_ok_iff.mp h
    rw [mapError_eq_ok_iff] at h
    exact isSound_of_toDefinition h

/-- An edit that fails leaves the definition at hand as it is. -/
theorem Edit.apply_of_error {edit : Edit} {error : Error}
    (h : edit.result current codec = .error error) : edit.apply current codec = current := by
  rw [apply, h]

/-- An edit leaves the definition at hand sound, whether it succeeds or fails. -/
theorem Edit.isSound_of_apply (hcurrent : ∀ d ∈ current, d.IsSound) (edit : Edit) :
    ∀ d ∈ edit.apply current codec, d.IsSound := by
  intro d hd
  rw [apply] at hd
  split at hd
  · rename_i made hresult
    obtain rfl : made = d := Option.some.inj hd
    exact isSound_of_result hcurrent hresult
  · exact hcurrent d hd

/-- A series of edits leaves the definition at hand sound. -/
theorem isSound_run (hcurrent : ∀ d ∈ current, d.IsSound) (edits : List Edit) :
    ∀ d ∈ run current edits codec, d.IsSound := by
  induction edits generalizing current with
  | nil => exact hcurrent
  | cons edit edits ih => exact ih (edit.isSound_of_apply hcurrent)

/-- After any series of edits the definition at hand has distinct names, array bounds in order at
every level of every type, and members that are what building them again from their own fields
gives, with initial values that fit their types. An edit that fails next leaves it as it is. -/
theorem run_invariant (codec : Codec) (edits : List Edit) :
    (∀ d ∈ run none edits codec, d.HasDistinctNames ∧ ∀ member ∈ d.members, member.type.IsOrdered ∧
      Member.of member.name member.type member.initial member.description = member ∧
      ∀ value ∈ member.initial, value.IsFitted member.type) ∧
    ∀ edit error, edit.result (run none edits codec) codec = .error error →
      run none (edits ++ [edit]) codec = run none edits codec := by
  constructor
  · intro d hd
    have hsound := isSound_run (fun _ hnone => absurd hnone (Option.not_mem_none _)) edits d hd
    refine ⟨hsound.names, fun member hmem => ?_⟩
    obtain ⟨hbuilt, hordered⟩ := hsound.members member hmem
    exact ⟨hordered, hbuilt.of_initial member.description, hbuilt.isFitted⟩
  · intro edit error herror
    rw [run, List.foldl_append]
    exact Edit.apply_of_error herror

-- a member takes the place of another one, and four of the edits fail
example : run none
    [.rename "Pump", .start "Pump" "", .addMember ⟨"speed", .spelled "INT", none, "in rpm"⟩,
      .addMember ⟨"label", .scalar .string, some (.int 7), ""⟩, .standard "pump",
      .addMember ⟨"speed", .spelled "REAL", some (.text " 3 "), "in rpm"⟩,
      .addMember ⟨"rows", .array (.spelled "ARRAY[0..1] OF INT") 2 1, none, ""⟩,
      .pass "beckhoff" "siemens", .pass "beckhoff" "beckhoff"] =
    some ⟨"Pump", "", [⟨"speed", .scalar .real, some (.real (.ofInt 3)), "in rpm"⟩,
      ⟨"label", .scalar .string, some (.text "7"), ""⟩]⟩ := by
  decide +kernel

end PlcTypes.Session
