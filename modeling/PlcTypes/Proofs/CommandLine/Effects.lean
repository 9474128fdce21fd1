import PlcTypes.CommandLine.Run
import PlcTypes.Proofs.Files.Store
import PlcTypes.Proofs.Log
import PlcTypes.Proofs.Settings

/-!
# What a command does to the files and prints

A command looks until it has its product, so a failure on the way changes nothing. Only the delivery
of the product writes, and it does so once, as its last step that can fail. What is printed comes
after that. What is logged on the way names no file, until one has been written.
-/

namespace PlcTypes

open FileStore

namespace CommandLine

/-- The output path of a command, if one is given. -/
def Command.output? : Command → Option String
  | convert _ _ _ output | importFile _ _ output | exportFile _ _ output
  | stateMachine _ _ output => output
  | _ => none

/-- Whether a command gives a value for a setting. -/
def Command.changesSettings : Command → Bool
  | config source target extension => source.isSome || target.isSome || extension.isSome
  | _ => false

/-- The definition that a command reads from a store. -/
def Command.definition? (store : FileStore) : Command → Option Definition
  | importFile vendorKey file _ => do
    let text ← (store.read file).toOption
    (Conversion.toDefinition text vendorKey).toOption
  | exportFile _ file _ => do
    let text ← (store.read file).toOption
    (Definition.ofUniversal text).toOption
  | _ => none

/-- The name and the text of the file that a command puts into an output directory. -/
def Command.document? (settings : Settings) (d : Definition) : Command → Option (String × String)
  | importFile .. => some (settings.universalFileName d.name, d.toUniversal)
  | exportFile vendorKey .. =>
    (Conversion.resolve vendorKey).toOption.map fun vendor =>
      (vendor.exportFileName d.name, vendor.exportText d)
  | _ => none

/-- What a command can produce from the files of a store. -/
inductive Command.Produces (store : FileStore) (settings : Settings) (command : Command) :
    Product → Prop where
  | printed (text : String) (output : command.output? = none)
    (unchanged : command.changesSettings = false) :
    Produces store settings command (.printed text)
  | written {path : String} (text : String) (output : command.output? = some path) :
    Produces store settings command (.written path text)
  | filed {directory name text : String} {d : Definition}
    (output : command.output? = some directory) (isDirectory : store.isDirectory directory = true)
    (definition : command.definition? store = some d)
    (document : command.document? settings d = some (name, text)) :
    Produces store settings command (.written (Path.join directory name) text)
  | saved {source target : Option Vendor} {extension : Option String}
    (config : command = .config source target extension)
    (changes : command.changesSettings = true) :
    Produces store settings command (.saved (updated settings source target extension))

variable {refusal : Refusal} {before after : FileStore} {settings : Settings} {command : Command}

section Product

/-- A file is read as the store has it. -/
theorem run_readFile (path : String) : (readFile (accessUnder refusal) path).run.run before =
    ((before.readUnder refusal path).mapError (Failure.unreadable path), before) := by
  have hread : ((accessUnder refusal).read path).run before =
      (before.readUnder refusal path, before) := rfl
  change (ExceptT.lift ((accessUnder refusal).read path) >>= _).run.run before = _
  rw [run_lift_bind hread]
  cases before.readUnder refusal path <;> rfl

/-- Reading a file changes nothing. -/
theorem leads_readFile (path : String) : Leads Eq (readFile (accessUnder refusal) path).run := by
  intro store
  rw [run_readFile]

/-- Finding out where a text goes changes nothing. -/
theorem leads_destination (name : String) (output : Option String) :
    Leads Eq (destination (accessUnder refusal) name output) := by
  intro store
  cases output <;> rfl

/-- Working out the product of a command changes nothing. -/
theorem leads_product (refusal : Refusal) (settings : Settings) (command : Command) :
    Leads Eq (command.product (accessUnder refusal) settings).run := by
  have hdestination (log : List LogRecord) (name : String) (output : Option String) (text : String) :
      Leads Eq (do
        let place ← .lift (destination (accessUnder refusal) name output)
        return ⟨log, .ofText text place⟩ : ExceptT Failure (StateM FileStore) (Logged Product)).run :=
    (leads_destination name output).lift.bind_run fun place => leads_pure _
  cases command with
  | convert file source target output =>
    refine Leads.bind_run (leads_pure _) fun source => ?_
    refine Leads.bind_run (leads_pure _) fun target => ?_
    refine (leads_readFile file).bind_run fun text => ?_
    split <;> exact leads_pure _
  | importFile vendorKey file output =>
    refine (leads_readFile file).bind_run fun text => ?_
    split
    · exact hdestination [] _ _ _
    · exact leads_pure _
  | exportFile vendorKey file output =>
    refine (leads_readFile file).bind_run fun text => ?_
    split
    · exact leads_pure _
    · split
      · exact hdestination _ _ _ _
      · exact leads_pure _
  | stateMachine instanceName vendorKey output =>
    rw [Command.product]
    split <;> exact leads_pure _
  | standard key name json =>
    rw [Command.product]
    split <;> exact leads_pure _
  | validate file =>
    refine (leads_readFile file).bind_run fun text => ?_
    split <;> exact leads_pure _
  | vendors => exact leads_pure _
  | config source target extension =>
    rw [Command.product]
    split <;> exact leads_pure _
  | version => exact leads_pure _

/-- A file that was read is in the store. -/
theorem run_readFile_eq_ok_iff {path text : String} :
    (readFile (accessUnder refusal) path).run.run before = (.ok text, after) ↔
      before.readUnder refusal path = .ok text ∧ before = after := by
  rw [run_readFile, Prod.mk.injEq, mapError_eq_ok_iff]

/-- A text goes to the output path of the command, or is printed. -/
theorem produces_ofText (text : String) (hunchanged : command.changesSettings = false) :
    command.Produces before settings (.ofText text command.output?) := by
  cases houtput : command.output? with
  | none => exact .printed text houtput hunchanged
  | some path => exact .written text houtput

/-- A text goes to the file of a name if the output path leads to a directory. -/
theorem produces_of_destination {d : Definition} {name text : String} {log : List LogRecord}
    {product : Logged Product} (hlog : NamesNoFile log) (hunchanged : command.changesSettings = false)
    (hdefinition : command.definition? before = some d)
    (hdocument : command.document? settings d = some (name, text))
    (h : (do
      let place ← .lift (destination (accessUnder refusal) name command.output?)
      return ⟨log, .ofText text place⟩ :
        ExceptT Failure (StateM FileStore) (Logged Product)).run.run before = (.ok product, after)) :
    NamesNoFile product.log ∧ command.Produces before settings product.value := by
  cases houtput : command.output? with
  | none =>
    rw [houtput] at h
    cases h
    exact ⟨hlog, .printed text houtput hunchanged⟩
  | some path =>
    have hproduct : product = ⟨log, .written
        (if before.isDirectoryUnder refusal path then Path.join path name else path) text⟩ := by
      rw [houtput] at h
      cases h
      rfl
    rw [hproduct]
    refine ⟨hlog, ?_⟩
    dsimp only
    split
    · rename_i hdirectory
      exact .filed houtput (isDirectory_of_isDirectoryUnder hdirectory) hdefinition hdocument
    · exact .written text houtput

/-- The product of a command is one of those that it can have, and what is logged on the way names
no file. -/
theorem produces_of_product {product : Logged Product}
    (h : (command.product (accessUnder refusal) settings).run.run before = (.ok product, after)) :
    NamesNoFile product.log ∧ command.Produces before settings product.value := by
  cases command with
  | convert file source target output =>
    obtain ⟨source, _, -, h⟩ := run_bind_eq_ok_iff.mp h
    obtain ⟨target, _, -, h⟩ := run_bind_eq_ok_iff.mp h
    obtain ⟨text, _, -, h⟩ := run_bind_eq_ok_iff.mp h
    split at h
    · rename_i converted hconverted
      cases h
      exact ⟨Conversion.namesNoFile_of_convertLogged hconverted, produces_ofText _ rfl⟩
    · cases h
  | importFile vendorKey file output =>
    obtain ⟨text, _, hread, h⟩ := run_bind_eq_ok_iff.mp h
    obtain ⟨hfile, rfl⟩ := run_readFile_eq_ok_iff.mp hread
    split at h
    · rename_i d hd
      have hdefinition : (Command.importFile vendorKey file output).definition? before = some d := by
        simp [Command.definition?, read_of_readUnder hfile, hd, Except.toOption]
      exact produces_of_destination namesNoFile_nil rfl hdefinition rfl h
    · cases h
  | exportFile vendorKey file output =>
    obtain ⟨text, _, hread, h⟩ := run_bind_eq_ok_iff.mp h
    obtain ⟨hfile, rfl⟩ := run_readFile_eq_ok_iff.mp hread
    split at h
    · cases h
    · rename_i d hd
      split at h
      · rename_i vendor hvendor
        have hdefinition : (Command.exportFile vendorKey file output).definition? before = some d := by
          simp [Command.definition?, read_of_readUnder hfile, hd, Except.toOption]
        have hdocument : (Command.exportFile vendorKey file output).document? settings d =
            some (vendor.exportFileName d.name, vendor.exportText d) := by
          simp [Command.document?, hvendor, Except.toOption]
        exact produces_of_destination
          (namesNoFile_of_warnings fun _ => Vendor.level_of_mem_exportLog) rfl hdefinition hdocument h
      · cases h
  | stateMachine instanceName vendorKey output =>
    rw [Command.product] at h
    split at h
    · cases h
      exact ⟨namesNoFile_nil, produces_ofText _ rfl⟩
    · cases h
  | standard key name json =>
    rw [Command.product] at h
    split at h
    · cases h
      exact ⟨namesNoFile_nil, .printed _ rfl rfl⟩
    · cases h
  | validate file =>
    obtain ⟨text, _, -, h⟩ := run_bind_eq_ok_iff.mp h
    split at h
    · cases h
      exact ⟨namesNoFile_nil, .printed _ rfl rfl⟩
    · cases h
  | vendors =>
    cases h
    exact ⟨namesNoFile_nil, .printed _ rfl rfl⟩
  | config source target extension =>
    rw [Command.product] at h
    split at h
    · rename_i hchanges
      cases h
      exact ⟨namesNoFile_nil, .saved rfl hchanges⟩
    · rename_i hunchanged
      cases h
      exact ⟨namesNoFile_nil, .printed _ rfl (Bool.not_eq_true _ ▸ hunchanged)⟩
  | version =>
    cases h
    exact ⟨namesNoFile_nil, .printed _ rfl rfl⟩

end Product

section Delivery

variable {settingsFile : Option String} {product : Product}

/-- A place whose file may be changed by a run that succeeds: that of the output path, that of a
document in an output directory, or that of the settings. A document whose name has no slash goes
right into the directory. -/
inductive Command.Changes (before after : FileStore) (settings : Settings)
    (settingsFile : Option String) (command : Command) : List String → Prop where
  | output {path : String} {place : List String} (output : command.output? = some path)
    (place_eq : before.placeOf path = .ok place) :
    Changes before after settings settingsFile command place
  | document {directory name text : String} {d : Definition} {base place : List String}
    (output : command.output? = some directory) (isDirectory : before.isDirectory directory = true)
    (base_eq : before.placeOf directory = .ok base)
    (definition : command.definition? before = some d)
    (document : command.document? settings d = some (name, text))
    (place_eq : before.placeOf (Path.join directory name) = .ok place)
    (inside : '/' ∉ name.toList → place = base ++ [name]) :
    Changes before after settings settingsFile command place
  | settings {path : String} {place : List String} (changes : command.changesSettings = true)
    (file : settingsFile = some path) (place_eq : after.placeOf path = .ok place) :
    Changes before after settings settingsFile command place

/-- What is left to print when a product has been delivered, and what has become of the files. -/
def Product.IsDelivered (settingsFile : Option String) (left : String)
    (before after : FileStore) : Product → Prop
  | printed text => left = text ∧ after = before
  | written path text => left = "" ∧ ∃ place, before.writable path = .ok place ∧
      after = before.put place (.file (.text text))
  | saved changed => left = changed.text ++ "\n" ∧ ∃ path, settingsFile = some path ∧
      ∃ middle, SameFiles before middle ∧ ∃ place, middle.writable path = .ok place ∧
        after = middle.put place (.file (.text changed.text))

/-- A delivery writes at most one file, and changes none if it fails. -/
theorem deliver_spec {result : Except Failure String}
    (h : (product.deliver (accessUnder refusal) settingsFile).run.run before = (result, after)) :
    (∃ failure, result = .error failure ∧ SameFiles before after) ∨
      ∃ left, result = .ok left ∧ product.IsDelivered settingsFile left before after := by
  cases product with
  | printed text =>
    cases h
    exact .inr ⟨text, rfl, rfl, rfl⟩
  | written path text =>
    generalize hwrite : ((accessUnder refusal).write path text).run before = outcome
    obtain ⟨written, middle⟩ := outcome
    change (ExceptT.lift ((accessUnder refusal).write path text) >>= _).run.run before = _ at h
    rw [run_lift_bind hwrite] at h
    rcases write_spec hwrite with ⟨fault, rfl, rfl⟩ | ⟨rfl, hplace⟩
    · cases h
      exact .inl ⟨_, rfl, Std.Refl.refl _⟩
    · cases h
      exact .inr ⟨"", rfl, rfl, hplace⟩
  | saved changed =>
    cases settingsFile with
    | none =>
      cases h
      exact .inl ⟨_, rfl, Std.Refl.refl _⟩
    | some path =>
      generalize hsave : (changed.save (accessUnder refusal) path).run before = outcome
      obtain ⟨saved, final⟩ := outcome
      have h := (run_lift_bind hsave).symm.trans h
      obtain ⟨middle, hmiddle, ⟨error, rfl, rfl⟩ | ⟨rfl, hplace⟩⟩ := Settings.save_spec hsave
      · cases h
        exact .inl ⟨_, rfl, hmiddle⟩
      · cases h
        exact .inr ⟨_, rfl, rfl, path, rfl, middle, hmiddle, hplace⟩

end Delivery

section Run

variable {settingsFile : Option String}

/-- The settings for a command are those that the store has, as far as it needs any, and what is
logged about them names no file. -/
theorem exists_run_settings (refusal : Refusal) (settingsFile : Option String) (before : FileStore)
    (command : Command) : ∃ loaded : Logged Settings,
      (command.settings (accessUnder refusal) settingsFile).run before = (loaded, before) ∧
      NamesNoFile loaded.log ∧
      command.product (accessUnder refusal) loaded.value =
        command.product (accessUnder refusal) (before.settingsUnder refusal settingsFile) := by
  have hload : (Settings.loadFrom (accessUnder refusal) settingsFile).run before = _ :=
    Settings.run_loadFrom settingsFile
  have hlog : NamesNoFile (before.settingsLog refusal settingsFile) :=
    namesNoFile_of_warnings fun _ => Settings.level_of_mem_settingsLog
  cases command with
  | version => exact ⟨.quiet .standard, rfl, namesNoFile_nil, rfl⟩
  | _ => exact ⟨_, hload, hlog, rfl⟩

/-- A command delivers its product in the state that it found, and changes no file if it fails. What
it logs names no file, but for the one that it has written, which comes last. -/
theorem run_command_spec {ended : Logged (Except Failure String)}
    (h : (command.run (accessUnder refusal) settingsFile).run before = (ended, after)) :
    (∃ failure, ended.value = .error failure ∧ NamesNoFile ended.log ∧ SameFiles before after) ∨
      ∃ left product earlier, ended.value = .ok left ∧ ended.log = earlier ++ product.log ∧
        NamesNoFile earlier ∧
        command.Produces before (before.settingsUnder refusal settingsFile) product ∧
        product.IsDelivered settingsFile left before after := by
  obtain ⟨loaded, hloaded, hquiet, hsettings⟩ :=
    exists_run_settings refusal settingsFile before command
  rw [Command.run, run_bind_of_run hloaded, hsettings] at h
  have hmiddle := leads_product refusal (before.settingsUnder refusal settingsFile) command before
  generalize hproduct : (command.product (accessUnder refusal)
    (before.settingsUnder refusal settingsFile)).run.run before = outcome at hmiddle
  obtain ⟨worked, middle⟩ := outcome
  obtain rfl : before = middle := hmiddle
  rw [run_bind_of_run hproduct] at h
  cases worked with
  | error failure =>
    cases h
    exact .inl ⟨failure, rfl, hquiet, Std.Refl.refl before⟩
  | ok product =>
    obtain ⟨hlog, hproduces⟩ := produces_of_product hproduct
    generalize hdeliver : (product.value.deliver (accessUnder refusal) settingsFile).run.run before =
      outcome
    obtain ⟨delivered, final⟩ := outcome
    dsimp only at h
    rw [run_bind_of_run hdeliver] at h
    rcases deliver_spec hdeliver with ⟨failure, rfl, hsame⟩ | ⟨left, rfl, hdelivered⟩
    · cases h
      exact .inl ⟨failure, rfl, hquiet.append hlog, hsame⟩
    · cases h
      exact .inr ⟨left, product.value, loaded.log ++ product.log, rfl, rfl, hquiet.append hlog,
        hproduces, hdelivered⟩

/-- If there is an output path, what a command produces is not printed but written, and the place
that it is written to is the one that is logged. -/
theorem written_of_isDelivered {product : Product} {left : String}
    (hproduces : command.Produces before settings product)
    (hdelivered : product.IsDelivered settingsFile left before after)
    (houtput : command.output? ≠ none) : left = "" ∧ ∃ path place, product.log = [.wrote path] ∧
      before.placeOf path = .ok place ∧
      ∀ other, other ≠ place → after.content? other = before.content? other := by
  cases hproduces with
  | printed text hnone _ => exact absurd hnone houtput
  | saved hconfig _ => exact absurd (hconfig ▸ rfl) houtput
  | written text _ | filed _ _ _ _ =>
    obtain ⟨hleft, place, hplace, rfl⟩ := hdelivered
    exact ⟨hleft, _, place, rfl, placeOf_of_writable hplace,
      fun other hother => content?_put_of_ne _ hother⟩

/-- A product that is delivered changes the file at one place, if any. -/
theorem changes_of_isDelivered {product : Product} {left : String}
    (hproduces : command.Produces before settings product)
    (hdelivered : product.IsDelivered settingsFile left before after) :
    SameFiles before after ∨
      ∃ place, command.Changes before after settings settingsFile place ∧
        ∀ other, other ≠ place → after.content? other = before.content? other := by
  cases hproduces with
  | printed text _ _ =>
    obtain ⟨-, rfl⟩ := hdelivered
    exact .inl (Std.Refl.refl _)
  | written text houtput =>
    obtain ⟨-, place, hplace, rfl⟩ := hdelivered
    exact .inr ⟨place, .output houtput (placeOf_of_writable hplace),
      fun other hother => content?_put_of_ne _ hother⟩
  | filed houtput hdirectory hdefinition hdocument =>
    obtain ⟨-, place, hplace, rfl⟩ := hdelivered
    obtain ⟨base, hbase, -⟩ := writable_join hdirectory hplace
    refine .inr ⟨place, .document houtput hdirectory hbase hdefinition hdocument
      (placeOf_of_writable hplace) ?_, fun other hother => content?_put_of_ne _ hother⟩
    intro hname
    obtain ⟨base', hbase', hinside⟩ := writable_join_of_notMem hdirectory hname hplace
    rwa [Except.ok.inj (hbase.symm.trans hbase')]
  | saved _ hchanges =>
    obtain ⟨-, path, hfile, middle, hmiddle, place, hplace, rfl⟩ := hdelivered
    refine .inr ⟨place, .settings hchanges hfile (placeOf_put _ hplace), fun other hother => ?_⟩
    rw [content?_put_of_ne _ hother, hmiddle other]

/-- What the caller sees of a run is what the command of the arguments comes to. -/
theorem run_of_command {arguments : List String} {ended : Logged (Except Failure String)}
    (hcommand : Command.ofArguments? arguments = some command)
    (hended : (command.run (accessUnder refusal) settingsFile).run before = (ended, after)) :
    (run (accessUnder refusal) settingsFile arguments).run before =
      (Report.ofResult ended, after) := by
  rw [run, hcommand]
  exact run_bind_of_run hended

/-- A run that succeeds has delivered a product of its command. -/
theorem exists_product_of_run {arguments : List String} {report : Report}
    (hcommand : Command.ofArguments? arguments = some command)
    (hrun : (run (accessUnder refusal) settingsFile arguments).run before = (report, after))
    (hexit : report.exitCode = 0) :
    ∃ product, command.Produces before (before.settingsUnder refusal settingsFile) product ∧
      product.IsDelivered settingsFile report.printed before after := by
  generalize hended : (command.run (accessUnder refusal) settingsFile).run before = outcome
  obtain ⟨⟨log, result⟩, final⟩ := outcome
  obtain ⟨rfl, rfl⟩ := Prod.mk.inj ((run_of_command hcommand hended).symm.trans hrun)
  rcases run_command_spec hended with ⟨failure, hfailed, -⟩ | ⟨left, product, -, hleft, -, -, hdelivery⟩
  · obtain rfl : result = .error failure := hfailed
    exact absurd hexit (show (1 : UInt32) ≠ 0 by decide)
  · obtain rfl : result = .ok left := hleft
    exact ⟨product, hdelivery⟩

/-- What a run leaves on the standard output when it prints nothing: the lines of what it logged. -/
theorem Report.stdout_of_printed {report : Report} (h : report.printed = "") (writer : LogWriter) :
    report.stdout writer = writer.write report.log := by
  rw [stdout, h, String.append_empty]

/-- A run that fails leaves nothing on the standard output but the lines of what it logged, none of
which names a file that was written, and has changed no file. A run that succeeds has changed at most
one file, which is that of the output path, of the document in an output directory or of the settings
that the command changes. With an output path it too leaves nothing but the lines of what it logged,
of which only the last one names a file that was written, and that is the one that has changed. Any
operation may have been refused on the way, and any writer may write the lines. -/
theorem run_all_or_nothing (refusal : Refusal) (settingsFile : Option String)
    (arguments : List String) (before : FileStore) (writer : LogWriter) :
    let outcome := (run (accessUnder refusal) settingsFile arguments).run before
    (outcome.1.exitCode = 1 → outcome.1.stdout writer = writer.write outcome.1.log ∧
        NamesNoFile outcome.1.log ∧ SameFiles before outcome.2) ∧
      (outcome.1.exitCode = 0 → ∃ command, Command.ofArguments? arguments = some command ∧
        (command.output? ≠ none → outcome.1.stdout writer = writer.write outcome.1.log ∧
          ∃ earlier path place, outcome.1.log = earlier ++ [.wrote path] ∧ NamesNoFile earlier ∧
            before.placeOf path = .ok place ∧
            ∀ other, other ≠ place → outcome.2.content? other = before.content? other) ∧
        (SameFiles before outcome.2 ∨ ∃ place,
          command.Changes before outcome.2 (before.settingsUnder refusal settingsFile) settingsFile
            place ∧
          ∀ other, other ≠ place → outcome.2.content? other = before.content? other)) := by
  intro outcome
  cases hcommand : Command.ofArguments? arguments with
  | none =>
    have houtcome : outcome = (Report.usage, before) := by
      simp only [outcome, run, hcommand]
      rfl
    rw [houtcome]
    exact ⟨fun h => absurd h (show Report.usage.exitCode ≠ 1 by decide),
      fun h => absurd h (show Report.usage.exitCode ≠ 0 by decide)⟩
  | some command =>
    generalize hended : (command.run (accessUnder refusal) settingsFile).run before = ended
    obtain ⟨⟨log, result⟩, after⟩ := ended
    have houtcome : outcome = (Report.ofResult ⟨log, result⟩, after) := run_of_command hcommand hended
    rw [houtcome]
    rcases run_command_spec hended with ⟨failure, hfailed, hquiet, hsame⟩ |
      ⟨left, product, earlier, hleft, hlog, hquiet, hproduces, hdelivered⟩
    · obtain rfl : result = .error failure := hfailed
      refine ⟨fun _ => ⟨Report.stdout_of_printed rfl writer, hquiet, hsame⟩, fun h => ?_⟩
      exact absurd h (show (1 : UInt32) ≠ 0 by decide)
    · obtain rfl : result = .ok left := hleft
      refine ⟨fun h => absurd h (show (0 : UInt32) ≠ 1 by decide), fun _ => ⟨command, rfl, ?_,
        changes_of_isDelivered hproduces hdelivered⟩⟩
      intro houtput
      obtain ⟨rfl, path, place, hpath, hplace⟩ := written_of_isDelivered hproduces hdelivered houtput
      refine ⟨Report.stdout_of_printed rfl writer, earlier, path, place, ?_, hquiet, hplace⟩
      rw [← hpath]
      exact hlog

/-- The root with the document of a type in it, next to a directory. -/
def documentStore (name : String) : FileStore where
  here := []
  entries := [(["out"], .directory),
    (["pump.yaml"], .file (.text ("name: " ++ name ++ "\nmembers: []\n")))]

/-- The document is exported to the directory. -/
def exported (name : String) : Report × FileStore :=
  (run FileStore.access none ["export", "codesys", "pump.yaml", "-o", "out"]).run
    (documentStore name)

/-- The root with an empty settings file. -/
def emptySettingsStore : FileStore where
  here := []
  entries := [(["settings.json"], .file (.text ""))]

/-- A file that is missing is validated. -/
def validated : Report × FileStore :=
  (run FileStore.access (some "settings.json") ["validate", "pump.yaml"]).run emptySettingsStore

/-- The lines of what is logged, in which an empty text is no settings file since it ends too soon. -/
def plainLines : LogWriter := .lines fun _ => "EOF while parsing a value"

/-- A run that fails and one that has an output path leave the lines of what they logged on the
standard output. A name that leads upwards takes the file out of the output directory. -/
theorem logged_and_outside :
    (validated.1.exitCode = 1 ∧ validated.1.stdout plainLines =
      "WARN Ignoring unreadable settings file settings.json: EOF while parsing a value\n") ∧
    ((exported "../Pump").1.exitCode = 0 ∧
      (exported "../Pump").1.stdout plainLines = "INFO Wrote out/../Pump.st\n") ∧
    (documentStore "../Pump").placeOf "out" = .ok ["out"] ∧
    (documentStore "../Pump").content? ["Pump.st"] = none ∧
    (exported "../Pump").2.content? ["Pump.st"] =
      some (.text "TYPE ../Pump :\nSTRUCT\nEND_STRUCT\nEND_TYPE\n") := by
  decide +kernel

end Run

end CommandLine

end PlcTypes
