import PlcTypes.Conversion
import PlcTypes.Proofs.Import
import PlcTypes.Proofs.Yaml.Tree

/-!
# Conversions without the document between

A definition that was imported is given back by its document tree. So if the print of the tree
reads back, going through the universal document changes nothing: what comes out is what the
target writes for the definition itself, and an error of the source comes before one of the
target.
-/

namespace PlcTypes.Conversion

open Text Yaml

/-- A definition that was imported was read by the importer of a vendor. -/
theorem exists_of_toDefinition {text key : String} {d : Definition} (h : toDefinition text key = .ok d) :
    ∃ vendor read, Vendor.ofTrimmedKey? key = some vendor ∧ vendor.importer? = some read ∧
      read text = .ok d := by
  obtain ⟨vendor, hvendor, h⟩ := bind_eq_ok_iff.mp h
  have hkey : Vendor.ofTrimmedKey? key = some vendor := by
    rw [resolve] at hvendor
    split at hvendor
    · rename_i heq
      rw [heq, Except.ok.inj hvendor]
    · simp at hvendor
  split at h
  · rename_i read hread
    exact ⟨vendor, read, hkey, hread, mapError_eq_ok_iff.mp h⟩
  · simp at h

/-- A definition that was imported is regular. -/
theorem isRegular_of_toDefinition {text key : String} {d : Definition}
    (htypes : Vendor.ofTrimmedKey? key = some .rockwell → Rockwell.HasPlainTypes text)
    (h : toDefinition text key = .ok d) : d.IsRegular := by
  obtain ⟨vendor, read, hkey, hvendor, hread⟩ := exists_of_toDefinition h
  cases vendor with
  | rockwell =>
    obtain rfl : Rockwell.parse = read := Option.some.inj hvendor
    exact Rockwell.isRegular_of_parse (htypes hkey) hread
  | siemens =>
    obtain rfl : Siemens.parse = read := Option.some.inj hvendor
    exact Siemens.isRegular_of_parse hread
  | codesys => simp [Vendor.importer?] at hvendor
  | beckhoff =>
    obtain rfl : Beckhoff.parse = read := Option.some.inj hvendor
    exact Beckhoff.isRegular_of_parse hread

variable {codec : Codec}

/-- The universal document of a regular definition is read as the definition. -/
theorem ofUniversal_toUniversal {d : Definition} (h : d.IsRegular)
    (hprint : codec.ReadsBack d.toTree) : Definition.ofUniversal (d.toUniversal codec) codec = .ok d := by
  have hread : codec.read? (d.toUniversal codec) = some d.toTree := hprint
  rw [Definition.ofUniversal, hread]
  exact Definition.ofTree_toTree h

/-- A conversion goes to the universal document and on from there. -/
theorem convert_eq (text source target : String) : convert text source target codec =
    (do fromUniversal (← toUniversal text source codec) target codec) := by
  rw [convert, convertLogged]
  simp only [fromUniversal, fromDefinition]
  cases toUniversal text source codec with
  | error e => rfl
  | ok universal =>
    simp only [bind, Except.bind]
    cases (Definition.ofUniversal universal codec).mapError ConversionError.universal with
    | error e => rfl
    | ok d => cases resolve target <;> rfl

/-- A conversion gives what the target writes for the definition that the source reads, and fails as
the one of the two that fails first, if the document between them reads back. The types of an export
must be more than white space and stay on one line. -/
theorem convert_eq_direct {text source : String} (target : String)
    (hprint : ∀ d, toDefinition text source = .ok d → codec.ReadsBack d.toTree)
    (htypes : Vendor.ofTrimmedKey? source = some .rockwell → Rockwell.HasPlainTypes text) :
    convert text source target codec = (do fromDefinition (← toDefinition text source) target) := by
  rw [convert_eq, toUniversal]
  cases hread : toDefinition text source with
  | error e => rfl
  | ok d =>
    have hdocument := ofUniversal_toUniversal (isRegular_of_toDefinition htypes hread) (hprint d hread)
    simp only [bind, Except.bind, pure, Except.pure, fromUniversal, hdocument, Except.mapError]

/-- An export with an array whose element count is given twice. -/
def tankExport : String :=
  "<DataType Name=\"Tank\"><Member Name=\"full\" DataType=\"BIT[4]\" Dimension=\"4\"/></DataType>"

/-- The definition of the tank. -/
def tank : Definition where
  name := "Tank"
  description := ""
  members := [.of "full" (.array (.scalar .bool) 0 3) none ""]

/-- The tank is converted as if there were no document between. -/
theorem convert_tank : convert tankExport "Rockwell" "siemens" =
    (do fromDefinition (← toDefinition tankExport "Rockwell") "siemens") := by
  have hread : (toDefinition tankExport "Rockwell").toOption = some tank := by decide +kernel
  refine convert_eq_direct "siemens" (fun d hd => ?_) fun _ => ?_
  · rw [hd] at hread
    rw [Option.some.inj hread]
    decide +kernel
  · rw [Rockwell.HasPlainTypes]
    decide +kernel

end PlcTypes.Conversion
