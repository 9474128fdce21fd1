import PlcTypes.Catalogue
import PlcTypes.CommandLine.Arguments
import PlcTypes.Conversion
import PlcTypes.Settings
import PlcTypes.Validation

/-!
# Running a command

A command first works out its product, for which it only reads. The product is then delivered
in one step: printed, written to a file, or saved as settings and printed. So a command that
fails has printed nothing, and one that succeeds has written at most one file. What is logged on the
way goes to the standard output ahead of what is printed there, also if the command fails.
-/

namespace PlcTypes.CommandLine

/-- Why a command fails. -/
inductive Failure where
  | unreadable (path : String) (fault : FileFault)
  | unwritable (path : String) (fault : FileFault)
  | noSource (file : String)
  | noTarget
  | conversion (error : ConversionError)
  | universal (error : UniversalError)
  | unknownType (key : String)
  | invalid (file : String) (findings : List Finding)
  | unsaved (error : Settings.SaveError)
  deriving DecidableEq, Repr

namespace Failure

/-- The message of a failure. -/
def message : Failure → String
  | unreadable path _ => "Failed to read " ++ path
  | unwritable path _ => "Failed to write " ++ path
  | noSource file => "Cannot infer source vendor from '" ++ file ++ "'; pass --from"
  | noTarget => "No target vendor given; pass --to"
  | conversion error => error.message
  | universal error => error.message
  | unknownType key =>
    "Unknown built-in type '" ++ key ++ "'. Available: " ++ StandardType.keys
  | invalid file findings => file ++ " has " ++ toString findings.length ++ " error(s)"
  | unsaved error => error.message

/-- What is behind a universal error. -/
def universalCause? : UniversalError → Option String
  | .badType _ error => some error.message
  | .malformed => none

/-- What is behind a failure. -/
def cause? : Failure → Option String
  | unreadable _ fault | unwritable _ fault => some fault.message
  | conversion (.universal error) => universalCause? error
  | universal error => universalCause? error
  | _ => none

/-- The findings that are listed before the message. -/
def findings : Failure → List Finding
  | invalid _ findings => findings
  | _ => []

/-- The report of a failure. -/
def report (failure : Failure) : String :=
  String.join (failure.findings.map fun finding => "  - " ++ finding.message ++ "\n") ++
    "Error: " ++ failure.message ++ "\n" ++
    match failure.cause? with
    | some cause => "\nCaused by:\n    " ++ cause ++ "\n"
    | none => ""

end Failure

/-- What a command produces. -/
inductive Product where
  | printed (text : String)
  | written (path text : String)
  | saved (settings : Settings)
  deriving DecidableEq, Repr

/-- A text for a file, or for printing if there is none. -/
def Product.ofText (text : String) : Option String → Product
  | some path => written path text
  | none => printed text

/-- The key of the source vendor: as asked for, as in the settings, or the only vendor with files
of this extension. -/
def sourceKey (asked : Option String) (settings : Settings) (file : String) :
    Except Failure String :=
  match asked, settings.source, Vendor.ofExtension (Path.extension file) with
  | some key, _, _ => .ok key
  | none, some vendor, _ => .ok vendor.key
  | none, none, [vendor] => .ok vendor.key
  | none, none, _ => .error (.noSource file)

/-- The key of the target vendor: as asked for, or as in the settings. -/
def targetKey (asked : Option String) (settings : Settings) : Except Failure String :=
  match asked, settings.target with
  | some key, _ => .ok key
  | none, some vendor => .ok vendor.key
  | none, none => .error .noTarget

/-- Pad a text to a width. -/
def padded (width : Nat) (text : String) : String :=
  text ++ String.ofList (List.replicate (width - text.length) ' ')

/-- Yes or no. -/
def yesNo (b : Bool) : String := if b then "yes" else "no"

/-- The line of a vendor in the list of vendors. -/
def vendorLine (vendor : Vendor) : String :=
  padded 10 vendor.key ++ " " ++ padded 9 vendor.displayName ++ " ." ++
    padded 6 vendor.extension ++ " import: " ++ padded 3 (yesNo vendor.canImport) ++ " export: " ++
    yesNo vendor.canExport ++ "\n"

/-- The settings with the given values put in. -/
def updated (settings : Settings) (source target : Option Vendor) (extension : Option String) :
    Settings :=
  { settings with
    source := source <|> settings.source
    target := target <|> settings.target
    extension := extension.getD settings.extension }

section

variable {m : Type → Type} [Monad m]

/-- Read a file. -/
def readFile (access : FileAccess m) (path : String) : ExceptT Failure m String := do
  match ← access.read path with
  | .ok text => return text
  | .error fault => throw (.unreadable path fault)

/-- Where a text goes: into the file of a name if the output is a directory. -/
def destination (access : FileAccess m) (name : String) : Option String → m (Option String)
  | none => return none
  | some path => return some (if ← access.isDirectory path then Path.join path name else path)

/-- The settings for a command. The version is told without looking for them. -/
def Command.settings (access : FileAccess m) (settingsFile : Option String) :
    Command → m (Logged Settings)
  | version => return .quiet .standard
  | _ => Settings.loadFrom access settingsFile

/-- Work out the product of a command. -/
def Command.product (access : FileAccess m) (settings : Settings) :
    Command → ExceptT Failure m (Logged Product)
  | convert file source target output => do
    let source ← ExceptT.mk (pure (sourceKey source settings file))
    let target ← ExceptT.mk (pure (targetKey target settings))
    let text ← readFile access file
    match Conversion.convertLogged text source target with
    | .ok converted => return ⟨converted.log, .ofText converted.value output⟩
    | .error error => throw (.conversion error)
  | importFile vendorKey file output => do
    let text ← readFile access file
    match Conversion.toDefinition text vendorKey with
    | .ok d =>
      let place ← .lift (destination access (settings.universalFileName d.name) output)
      return .quiet (.ofText d.toUniversal place)
    | .error error => throw (.conversion error)
  | exportFile vendorKey file output => do
    let text ← readFile access file
    match Definition.ofUniversal text with
    | .error error => throw (.universal error)
    | .ok d =>
      match Conversion.resolve vendorKey with
      | .ok vendor =>
        let place ← .lift (destination access (vendor.exportFileName d.name) output)
        return ⟨vendor.exportLog d, .ofText (vendor.exportText d) place⟩
      | .error error => throw (.conversion error)
  | stateMachine instanceName vendorKey output =>
    match Conversion.stateMachine instanceName vendorKey with
    | .ok code => return .quiet (.ofText code output)
    | .error error => throw (.conversion error)
  | standard key name json =>
    match StandardType.ofKey? key with
    | some type =>
      let d := match name with
        | some name => type.definition.renamed name
        | none => type.definition
      return .quiet (.printed (if json then d.toJsonText ++ "\n" else d.toUniversal))
    | none => throw (.unknownType key)
  | validate file => do
    match Validation.checkText (← readFile access file) with
    | [] => return .quiet (.printed (file ++ " is valid\n"))
    | findings => throw (.invalid file findings)
  | vendors => return .quiet (.printed (String.join (Vendor.all.map vendorLine)))
  | config source target extension =>
    let changed := updated settings source target extension
    if source.isSome || target.isSome || extension.isSome then return .quiet (.saved changed)
    else return .quiet (.printed (changed.text ++ "\n"))
  | version => return .quiet (.printed "plcudt 0.3.0\n")

/-- Deliver a product. What is left is the text to print. -/
def Product.deliver (access : FileAccess m) (settingsFile : Option String) :
    Product → ExceptT Failure m String
  | printed text => return text
  | written path text => do
    match ← access.write path text with
    | .ok () => return ""
    | .error fault => throw (.unwritable path fault)
  | saved settings =>
    match settingsFile with
    | none => throw (.unsaved .noPlace)
    | some path => do
      match ← .lift (settings.save access path) with
      | .ok () => return settings.text ++ "\n"
      | .error error => throw (.unsaved error)

/-- What is logged of a product when it has been delivered. -/
def Product.log : Product → List LogRecord
  | written path _ => [.wrote path]
  | printed _ | saved _ => []

/-- Run a command. What is left is the text to print. -/
def Command.run (access : FileAccess m) (settingsFile : Option String) (command : Command) :
    m (Logged (Except Failure String)) := do
  let settings ← command.settings access settingsFile
  match ← (command.product access settings.value).run with
  | .error failure => return ⟨settings.log, .error failure⟩
  | .ok product =>
    match ← (product.value.deliver access settingsFile).run with
    | .error failure => return ⟨settings.log ++ product.log, .error failure⟩
    | .ok text => return ⟨settings.log ++ product.log ++ product.value.log, .ok text⟩

end

/-- What is left of a run: its exit code, what it logged, what it printed and its complaints. -/
structure Report where
  exitCode : UInt32
  log : List LogRecord
  printed : String
  stderr : String
  deriving DecidableEq, Repr

namespace Report

/-- The standard output: the lines of what was logged, and behind them what was printed. -/
def stdout (report : Report) (writer : LogWriter := .silent) : String :=
  writer.write report.log ++ report.printed

/-- The report of a command that has been run. -/
def ofResult : Logged (Except Failure String) → Report
  | ⟨log, .ok text⟩ => ⟨0, log, text, ""⟩
  | ⟨log, .error failure⟩ => ⟨1, log, "", failure.report⟩

/-- The report of an argument list that is rejected. -/
def usage : Report :=
  ⟨2, [], "", "Usage: plcudt <convert|import|export|generate-sm|add|validate|vendors|config>\n"⟩

end Report

/-- Run the command of an argument list. -/
def run {m : Type → Type} [Monad m] (access : FileAccess m) (settingsFile : Option String)
    (arguments : List String) : m Report := do
  match Command.ofArguments? arguments with
  | some command => return .ofResult (← command.run access settingsFile)
  | none => return .usage

end PlcTypes.CommandLine
