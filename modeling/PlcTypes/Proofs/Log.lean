import PlcTypes.Conversion
import PlcTypes.Proofs.ArraySize
import PlcTypes.Proofs.Format.RockwellType
import PlcTypes.Proofs.Settings

/-!
# What is logged

Loading the settings and writing a vendor's text log nothing but warnings, and a conversion adds the
size of its text. So that a file was written is logged by nobody but who writes it. An export warns
about a lower bound exactly if some type in it does not read back with the bounds that it has.
-/

namespace PlcTypes

open DataType Number Yaml

/-- No record says that a file was written. -/
def NamesNoFile (log : List LogRecord) : Prop := ∀ path, LogRecord.wrote path ∉ log

variable {log : List LogRecord} {record : LogRecord}

/-- Where nothing is logged, no file is named. -/
theorem namesNoFile_nil : NamesNoFile [] := fun _ => List.not_mem_nil

/-- Two logs name no file together if neither of them does. -/
theorem NamesNoFile.append {log' : List LogRecord} (h : NamesNoFile log) (h' : NamesNoFile log') :
    NamesNoFile (log ++ log') := fun path hmem =>
  (List.mem_append.mp hmem).elim (h path) (h' path)

/-- No warning names a file that was written. -/
theorem namesNoFile_of_warnings (h : ∀ record ∈ log, record.level = .warning) : NamesNoFile log :=
  fun _ hmem => absurd (h _ hmem) LogLevel.noConfusion

/-- What is logged about the text of a settings file is a warning. -/
theorem Settings.level_of_mem_textLog {path text : String} (h : record ∈ textLog path text) :
    record.level = .warning := by
  rw [textLog] at h
  split at h
  · exact absurd h List.not_mem_nil
  · rw [List.mem_singleton.mp h]
    rfl

/-- What is logged about a settings file in a store is a warning. -/
theorem Settings.level_of_mem_settingsLog {refusal : FileStore.Refusal} {store : FileStore}
    {file : Option String} (h : record ∈ store.settingsLog refusal file) : record.level = .warning := by
  cases file with
  | none => exact absurd h List.not_mem_nil
  | some path =>
    rw [FileStore.settingsLog] at h
    split at h
    · exact level_of_mem_textLog h
    · exact absurd h List.not_mem_nil

namespace Rockwell

/-- What is logged about a written type is a warning. -/
theorem level_of_mem_typeLog {type : DataType} (h : record ∈ typeLog type) :
    record.level = .warning := by
  induction type with
  | scalar kind => exact absurd h List.not_mem_nil
  | named name => exact absurd h List.not_mem_nil
  | array base lower upper ih =>
    rw [typeLog] at h
    split at h
    · rcases List.mem_append.mp h with h | h
      · split at h
        · exact absurd h List.not_mem_nil
        · rw [List.mem_singleton.mp h]
          rfl
      · exact ih h
    · rw [List.mem_singleton.mp h]
      rfl

/-- No lower bound is warned about exactly if numbering the arrays from zero changes nothing. -/
theorem lowerBoundLost_notMem_typeLog_iff {type : DataType} (hordered : type.IsOrdered) :
    (∀ lower, .lowerBoundLost lower ∉ typeLog type) ↔ type.zeroBased = type := by
  induction type with
  | scalar kind => simp [typeLog, zeroBased]
  | named name => simp [typeLog, zeroBased]
  | array base lower upper ih =>
    rw [typeLog, zeroBased]
    cases hcount : (array base lower upper).elementCount? with
    | none => simp
    | some count =>
      obtain ⟨hcounted, -⟩ := (elementCount?_eq_some_iff hordered.1).mp hcount
      dsimp only
      constructor
      · intro h
        obtain rfl : lower = 0 := by
          by_contra hlower
          exact h lower (by simp [hlower])
        have hbase := (ih hordered.2).mp fun lower hmem => h lower (List.mem_append_right _ hmem)
        have hupper : Int64.ofNat (count - 1) = upper := by
          have hlast : upper.toInt = ((count - 1 : ℕ) : ℤ) := by
            have hle := Int64.le_iff_toInt_le.mp hordered.1
            rw [Int64.toInt_zero] at hcounted hle
            omega
          rw [← Int64.toInt_inj, hlast, Int64.toInt_ofNat_of_lt]
          have hlt := upper.toInt_lt
          omega
        rw [hbase, hupper]
      · intro h lower' hmem
        obtain ⟨hbase, rfl, -⟩ := array.inj h
        exact (ih hordered.2).mpr hbase lower' hmem

/-- An export warns about no lower bound exactly if all its types read back numbered as they are. -/
theorem lowerBoundLost_notMem_generateLog_iff {d : Definition}
    (hordered : ∀ member ∈ d.members, member.type.IsOrdered) :
    (∀ lower, .lowerBoundLost lower ∉ generateLog d) ↔
      ∀ member ∈ d.members, member.type.zeroBased = member.type := by
  have hmembers : (∀ lower, .lowerBoundLost lower ∉ generateLog d) ↔
      ∀ member ∈ d.members, ∀ lower, .lowerBoundLost lower ∉ typeLog member.type := by
    simp only [generateLog, List.mem_flatMap, not_exists, not_and]
    exact ⟨fun h member hmem lower => h lower member hmem, fun h lower member hmem => h member hmem lower⟩
  rw [hmembers]
  exact forall₂_congr fun member hmem => lowerBoundLost_notMem_typeLog_iff (hordered member hmem)

end Rockwell

/-- What is logged of an export is a warning. -/
theorem Vendor.level_of_mem_exportLog {vendor : Vendor} {d : Definition}
    (h : record ∈ vendor.exportLog d) : record.level = .warning := by
  cases vendor with
  | rockwell =>
    obtain ⟨member, -, h⟩ := List.mem_flatMap.mp h
    exact Rockwell.level_of_mem_typeLog h
  | siemens | codesys | beckhoff => exact absurd h List.not_mem_nil

/-- A conversion names no file that was written. -/
theorem Conversion.namesNoFile_of_convertLogged {text source target : String} {codec : Codec}
    {converted : Logged String} (h : convertLogged text source target codec = .ok converted) :
    NamesNoFile converted.log := by
  obtain ⟨universal, -, h⟩ := bind_eq_ok_iff.mp h
  obtain ⟨d, -, h⟩ := bind_eq_ok_iff.mp h
  obtain ⟨vendor, -, h⟩ := bind_eq_ok_iff.mp h
  rw [← Except.ok.inj h]
  refine (namesNoFile_of_warnings fun _ => Vendor.level_of_mem_exportLog).append fun path hmem => ?_
  cases List.mem_singleton.mp hmem

end PlcTypes
