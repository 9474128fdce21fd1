import PlcTypes.Proofs.CommandLine.Effects

/-!
# Files in an output directory

A document that is put into an output directory is named after its type. The name is taken as a path
from the directory on, so the file is right in the directory if the name has no slash, and else
wherever the names between the slashes lead.
-/

namespace PlcTypes.CommandLine

open FileStore

variable {refusal : Refusal} {before after : FileStore} {settings : Settings} {command : Command}
  {settingsFile : Option String} {arguments : List String} {report : Report}

/-- The name of a universal file has the slashes of the type's name and of the extension. -/
theorem slash_mem_universalFileName {name : String} :
    '/' ∈ (settings.universalFileName name).toList ↔
      '/' ∈ name.toList ∨ '/' ∈ settings.extension.toList := by
  have hdots : '/' ∈ settings.extension.toList.dropWhile (· == '.') ↔
      '/' ∈ settings.extension.toList := by
    conv_rhs => rw [← List.takeWhile_append_dropWhile (p := (· == '.'))
      (l := settings.extension.toList), List.mem_append]
    refine ⟨Or.inr, fun h => h.resolve_left fun htaken => ?_⟩
    exact absurd (List.mem_takeWhile_imp htaken) (by decide)
  rw [← hdots, Settings.universalFileName]
  generalize settings.extension.toList.dropWhile (· == '.') = extension
  cases extension <;> simp

/-- The name of a vendor's file has the slashes of the type's name. -/
theorem slash_mem_exportFileName {vendor : Vendor} {name : String} :
    '/' ∈ (vendor.exportFileName name).toList ↔ '/' ∈ name.toList := by
  cases vendor <;> simp [Vendor.exportFileName, Vendor.extension]

/-- A document whose name has a slash is for a type whose name has one, or is imported with an
extension that has one. -/
theorem slash_mem_of_document {d : Definition} {name text : String}
    (hdocument : command.document? settings d = some (name, text)) (hslash : '/' ∈ name.toList) :
    '/' ∈ d.name.toList ∨ '/' ∈ settings.extension.toList ∧
      ∃ vendorKey file output, command = .importFile vendorKey file output := by
  cases command with
  | importFile vendorKey file output =>
    obtain ⟨rfl, -⟩ := Prod.mk.inj (Option.some.inj hdocument)
    exact (slash_mem_universalFileName.mp hslash).imp_right fun h =>
      ⟨h, vendorKey, file, output, rfl⟩
  | exportFile vendorKey file output =>
    obtain ⟨vendor, -, h⟩ := Option.map_eq_some_iff.mp hdocument
    obtain ⟨rfl, -⟩ := Prod.mk.inj h
    exact .inl (slash_mem_exportFileName.mp hslash)
  | _ => cases hdocument

/-- A run that succeeds with a directory as its output path has imported or exported a document and
has written that one file. The file is where the document's name leads from the directory on. It is
right in the directory, unless there is a slash in the type's name or, for an import, in the
extension of the settings. -/
theorem document_in_directory {directory : String}
    (hcommand : Command.ofArguments? arguments = some command)
    (houtput : command.output? = some directory) (hdirectory : before.isDirectory directory = true)
    (hrun : (run (accessUnder refusal) settingsFile arguments).run before = (report, after))
    (hexit : report.exitCode = 0) :
    ∃ d name text base place, command.definition? before = some d ∧
      command.document? (before.settingsUnder refusal settingsFile) d = some (name, text) ∧
      before.placeOf directory = .ok base ∧ after = before.put place (.file (.text text)) ∧
      (∃ front last parent, Path.names name = front ++ [last] ∧ place = parent ++ [last] ∧
        front.foldlM before.enter (if Path.isAbsolute name then [] else base) = .ok parent) ∧
      (place = base ++ [name] ∨ '/' ∈ d.name.toList ∨
        '/' ∈ (before.settingsUnder refusal settingsFile).extension.toList ∧
          ∃ vendorKey file output, command = .importFile vendorKey file output) := by
  obtain ⟨product, hproduces, hdelivered⟩ := exists_product_of_run hcommand hrun hexit
  cases hproduces with
  | printed text hnone _ => simp [houtput] at hnone
  | saved hconfig _ => simp [hconfig, Command.output?] at houtput
  | written text houtput' =>
    obtain rfl := Option.some.inj (houtput.symm.trans houtput')
    obtain ⟨-, place, hplace, -⟩ := hdelivered
    exact absurd hplace (writable_ne_ok_of_isDirectory hdirectory)
  | @filed _ name text d houtput' _ hdefinition hdocument =>
    obtain rfl := Option.some.inj (houtput.symm.trans houtput')
    obtain ⟨-, place, hplace, hafter⟩ := hdelivered
    obtain ⟨base, hbase, hwalk⟩ := writable_join hdirectory hplace
    refine ⟨d, name, text, base, place, hdefinition, hdocument, hbase, hafter, hwalk, ?_⟩
    by_cases hslash : '/' ∈ name.toList
    · exact .inr (slash_mem_of_document hdocument hslash)
    · obtain ⟨base', hbase', hinside⟩ := writable_join_of_notMem hdirectory hslash hplace
      exact .inl (by rwa [Except.ok.inj (hbase.symm.trans hbase')])

/-- The root with a type declaration in a file, next to a directory. -/
def sourceStore (name : String) : FileStore where
  here := []
  entries := [(["out"], .directory),
    (["pump.scl"], .file (.text ("TYPE \"" ++ name ++ "\"\nX : Int;")))]

/-- The command that imports the type declaration to the directory. -/
def importPump : Command := .importFile "siemens" "pump.scl" (some "out")

/-- The type declaration is imported to the directory. -/
def imported (name : String) : Report × FileStore :=
  (run (accessUnder fun _ _ _ => none) none ["import", "siemens", "pump.scl", "-o", "out"]).run
    (sourceStore name)

/-- A plain name is that of a file right in the directory. -/
theorem imported_inside : (imported "Pump").1.exitCode = 0 ∧ ∃ text,
    (imported "Pump").2 = (sourceStore "Pump").put ["out", "Pump.yaml"] (.file (.text text)) := by
  have hexit : (imported "Pump").1.exitCode = 0 := by decide +kernel
  have hcommand : Command.ofArguments? ["import", "siemens", "pump.scl", "-o", "out"] =
      some importPump := by
    decide +kernel
  have hdefinition : importPump.definition? (sourceStore "Pump") =
      some ⟨"Pump", "", [⟨"X", .scalar .int, none, ""⟩]⟩ := by
    decide +kernel
  have hdirectory : (sourceStore "Pump").isDirectory "out" = true := by decide +kernel
  have hbase : (sourceStore "Pump").placeOf "out" = .ok ["out"] := by decide +kernel
  obtain ⟨d, name, text, base, place, hd, hdocument, hplaceOf, hafter, -, hinside⟩ :=
    document_in_directory hcommand rfl hdirectory (rfl : imported "Pump" = (_, _)) hexit
  obtain rfl := Option.some.inj (hdefinition.symm.trans hd)
  obtain ⟨rfl, -⟩ := Prod.mk.inj (Option.some.inj hdocument)
  obtain rfl := Except.ok.inj (hbase.symm.trans hplaceOf)
  obtain rfl : place = ["out", "Pump.yaml"] := by
    rcases hinside with hinside | hslash | ⟨hslash, -⟩
    · rw [hinside]
      decide +kernel
    · exact absurd hslash (by decide)
    · exact absurd hslash (by decide)
  exact ⟨hexit, text, hafter⟩

/-- A name that leads upwards is that of a file outside the directory. -/
theorem imported_outside : (imported "../Pump").1.exitCode = 0 ∧
    (sourceStore "../Pump").isDirectory "out" = true ∧
    (sourceStore "../Pump").content? ["Pump.yaml"] = none ∧
    (imported "../Pump").2.content? ["Pump.yaml"] = some (.text <|
      "name: ../Pump\ndescription: ''\nmembers:\n- name: X\n  type: INT\n  default: null\n" ++
        "  description: ''\n") := by
  decide +kernel

end PlcTypes.CommandLine
