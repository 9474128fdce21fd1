import PlcTypes.Format.Beckhoff
import PlcTypes.Format.Codesys
import PlcTypes.Format.Rockwell
import PlcTypes.Format.Siemens
import PlcTypes.Log
import PlcTypes.StateMachine.Code
import PlcTypes.Universal

/-!
# Conversion between vendors

Every conversion goes through a definition and its universal document. Vendors are asked for by
their keys, and a wrong key is an error before the text is looked at.
-/

namespace PlcTypes

open Text Yaml

/-- Why a conversion fails. -/
inductive ConversionError where
  | unknownVendor (key : String)
  | noImport (vendor : Vendor)
  | format (error : FormatError)
  | universal (error : UniversalError)
  deriving DecidableEq, Repr

/-- The report of a conversion error. -/
def ConversionError.message : ConversionError → String
  | unknownVendor key => "Unknown vendor '" ++ key ++ "'. Supported: " ++ Vendor.keys
  | noImport vendor => vendor.displayName ++ " does not support import"
  | format error => error.message
  | universal error => error.message

namespace Vendor

/-- Read a vendor's text, if there is a reader for it. -/
def importer? : Vendor → Option (String → Except FormatError Definition)
  | rockwell => some Rockwell.parse
  | siemens => some Siemens.parse
  | codesys => none
  | beckhoff => some Beckhoff.parse

/-- Write a definition as a vendor's text. -/
def exportText : Vendor → Definition → String
  | rockwell => Rockwell.generate
  | siemens => Siemens.generate
  | codesys => Codesys.generate
  | beckhoff => Beckhoff.generate

/-- What is logged when a definition is written as a vendor's text. -/
def exportLog : Vendor → Definition → List LogRecord
  | rockwell => Rockwell.generateLog
  | siemens | codesys | beckhoff => fun _ => []

end Vendor

namespace Conversion

/-- A key without the white space around it. -/
def trimmed (key : String) : String := String.ofList (trim key.toList)

/-- The vendor of a key. -/
def resolve (key : String) : Except ConversionError Vendor :=
  match Vendor.ofTrimmedKey? key with
  | some vendor => .ok vendor
  | none => .error (.unknownVendor key)

/-- Read a vendor's text. -/
def toDefinition (text key : String) : Except ConversionError Definition := do
  let vendor ← resolve key
  match vendor.importer? with
  | some read => (read text).mapError .format
  | none => .error (.noImport vendor)

/-- Write a definition as a vendor's text. -/
def fromDefinition (d : Definition) (key : String) : Except ConversionError String := do
  return (← resolve key).exportText d

/-- A vendor's text as a universal document. -/
def toUniversal (text key : String) (codec : Codec := .standard) :
    Except ConversionError String := do
  return (← toDefinition text key).toUniversal codec

/-- A universal document as a vendor's text. -/
def fromUniversal (text key : String) (codec : Codec := .standard) :
    Except ConversionError String := do
  fromDefinition (← (Definition.ofUniversal text codec).mapError .universal) key

/-- One vendor's text as another's, by way of the universal document, with what is logged of the
export and at last the size of the text. -/
def convertLogged (text source target : String) (codec : Codec := .standard) :
    Except ConversionError (Logged String) := do
  let universal ← toUniversal text source codec
  let d ← (Definition.ofUniversal universal codec).mapError .universal
  let vendor ← resolve target
  let converted := vendor.exportText d
  let summary := .converted (trimmed source) (trimmed target) converted.utf8ByteSize
  return ⟨vendor.exportLog d ++ [summary], converted⟩

/-- One vendor's text as another's, by way of the universal document. -/
def convert (text source target : String) (codec : Codec := .standard) :
    Except ConversionError String :=
  (convertLogged text source target codec).map Logged.value

/-- The state machine of an instance as a vendor's code. -/
def stateMachine (instanceName key : String) : Except ConversionError String := do
  return StateMachine.code (.ofVendor (← resolve key)) instanceName

end Conversion

end PlcTypes
