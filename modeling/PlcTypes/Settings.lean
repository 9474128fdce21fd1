import PlcTypes.Files
import PlcTypes.Json.Printer
import PlcTypes.Json.Reader
import PlcTypes.Log
import PlcTypes.Vendor

/-!
# Settings

The settings are kept in a JSON file, as an object or as an array of its values in order. Values
that are left out take their defaults. A file that is missing or wrong in any part counts as one
with the defaults throughout; that a file was read and found wrong is logged.
-/

namespace PlcTypes

open Number

-- powers are those of the core library, whatever else is imported
attribute [local instance (high)] instPowNat

/-- The defaults of the command line. -/
structure Settings where
  version : UInt32
  source : Option Vendor
  target : Option Vendor
  extension : String
  deriving DecidableEq, Repr

namespace Settings

/-- The settings without a file. -/
def standard : Settings := ⟨1, none, none, "yaml"⟩

/-- The name of the file that a universal document is written to. -/
def universalFileName (settings : Settings) (name : String) : String :=
  let extension := String.ofList (settings.extension.toList.dropWhile (· == '.'))
  name ++ "." ++ if extension.isEmpty then "yaml" else extension

/-- A vendor as JSON. -/
def vendorJson : Option Vendor → Json
  | some vendor => .string vendor.key
  | none => .null

/-- The settings as JSON. -/
def toJson (settings : Settings) : Json :=
  .object
    [("version", .number (toString settings.version.toNat)),
     ("default_source", vendorJson settings.source), ("default_target", vendorJson settings.target),
     ("universal_extension", .string settings.extension)]

/-- The text of a settings file. -/
def text (settings : Settings) : String := settings.toJson.pretty

/-- Read a version: a natural number of 32 bits without fraction and exponent. -/
def readVersion? : Json → Option UInt32
  | .number spelling =>
    ((readDigits 10 spelling.toList).filter (· < 2 ^ (32 : Nat))).map UInt32.ofNat
  | _ => none

/-- The vendor whose key is exactly the given one. -/
def vendorOfExactKey? (key : String) : Option Vendor :=
  Vendor.all.find? fun vendor => vendor.key == key

/-- Read a vendor: null for none, or else a key, which may stand alone or with null as its only
value. -/
def readVendor? : Json → Option (Option Vendor)
  | .null => some none
  | .string key => (vendorOfExactKey? key).map some
  | .object [(key, .null)] => (vendorOfExactKey? key).map some
  | _ => none

/-- Read a value that may be left out. -/
def readOr {α : Type} (standard : α) (read : Json → Option α) : Option Json → Option α
  | none => some standard
  | some value => read value

/-- The value of a key that may come once. -/
def uniqueEntry? (entries : List (String × Json)) (key : String) : Option (Option Json) :=
  match entries.filter fun entry => entry.1 == key with
  | [] => some none
  | [entry] => some (some entry.2)
  | _ => none

/-- Read the four values. -/
def ofValues? (version source target extension : Option Json) : Option Settings := do
  some
    { version := ← readOr standard.version readVersion? version
      source := ← readOr standard.source readVendor? source
      target := ← readOr standard.target readVendor? target
      extension := ← readOr standard.extension Json.text? extension }

/-- Read settings from JSON. -/
def ofJson? : Json → Option Settings
  | .object entries => do
    ofValues? (← uniqueEntry? entries "version") (← uniqueEntry? entries "default_source")
      (← uniqueEntry? entries "default_target") (← uniqueEntry? entries "universal_extension")
  | .array items =>
    if 4 < items.length then none else ofValues? items[0]? items[1]? items[2]? items[3]?
  | _ => none

/-- The settings in the text of a file, if there are any. -/
def ofText? (text : String) : Option Settings := (Json.ofText? text).bind ofJson?

/-- The settings in the text of a file. -/
def ofText (text : String) : Settings := (ofText? text).getD standard

/-- What is logged about the text of a file: that it is ignored if there are no settings in it. -/
def textLog (path text : String) : List LogRecord :=
  if (ofText? text).isSome then [] else [.settingsIgnored path text]

/-- Why settings cannot be saved. -/
inductive SaveError where
  | noPlace
  | directory (fault : FileFault)
  | file (fault : FileFault)
  deriving DecidableEq, Repr

/-- What was to be done when saving failed. -/
def SaveError.summary : SaveError → String
  | noPlace => "Could not determine config directory"
  | directory _ => "Failed to create config directory"
  | file _ => "Failed to write settings file"

/-- The report of a save error. -/
def SaveError.message (error : SaveError) : String :=
  match error with
  | noPlace => error.summary
  | directory fault | file fault => error.summary ++ ": " ++ fault.message

variable {m : Type → Type} [Monad m]

/-- Load the settings from a file, with what is logged about it. -/
def loadLogged (access : FileAccess m) (path : String) : m (Logged Settings) := do
  match ← access.read path with
  | .ok text => return ⟨textLog path text, ofText text⟩
  | .error _ => return .quiet standard

/-- Load the settings from a file if there is one. -/
def loadFrom (access : FileAccess m) : Option String → m (Logged Settings)
  | some path => loadLogged access path
  | none => return .quiet standard

/-- Load the settings from a file. -/
def load (access : FileAccess m) (path : String) : m Settings :=
  return (← loadLogged access path).value

/-- Save the settings to a file, in a directory that is made if it is missing. -/
def save (access : FileAccess m) (path : String) (settings : Settings) :
    m (Except SaveError Unit) := do
  match ← access.makeDirectories (Path.ancestors path) with
  | .error fault => return .error (.directory fault)
  | .ok () => return (← access.write path settings.text).mapError .file

end Settings

end PlcTypes
