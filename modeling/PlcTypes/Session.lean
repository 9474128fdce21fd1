import PlcTypes.Catalogue
import PlcTypes.Conversion
import PlcTypes.Validation

/-!
# Editing sessions

A session works on one definition, and on none at first. An edit makes the definition or makes
another one of it; an edit that fails leaves it as it was. A query only looks.
-/

namespace PlcTypes.Session

open Yaml

/-- Why an edit or a query fails. -/
inductive Error where
  | noDefinition
  | bounds (error : BoundError)
  | unknownType (key : String)
  | unknownVendor (key : String)
  | conversion (error : ConversionError)
  | universal (error : UniversalError)
  deriving DecidableEq, Repr

/-- The ways to come by a definition. -/
inductive Edit where
  | start (name description : String)
  | load (draft : Draft)
  | standard (key : String)
  | read (text vendorKey : String)
  | decode (text : String)
  | addMember (draft : MemberDraft)
  | rename (name : String)
  | reread
  | pass (writerKey readerKey : String)

/-- The definition at hand, if there is one. -/
def required : Option Definition → Except Error Definition
  | some d => .ok d
  | none => .error .noDefinition

/-- A definition from a standard type. -/
def standardDefinition (key : String) : Except Error Definition :=
  match StandardType.ofKey? key with
  | some type => .ok type.definition
  | none => .error (.unknownType key)

/-- The definition an edit makes. -/
def Edit.result (current : Option Definition) (edit : Edit) (codec : Codec := .standard) :
    Except Error Definition :=
  match edit with
  | start name description => .ok (.bare name description)
  | load draft => draft.build.mapError .bounds
  | standard key => standardDefinition key
  | read text vendorKey => (Conversion.toDefinition text vendorKey).mapError .conversion
  | decode text => (Definition.ofUniversal text codec).mapError .universal
  | addMember draft => do
    let d ← required current
    return d.push (← draft.build.mapError .bounds)
  | rename name => do return (← required current).renamed name
  | reread => do
    let text := (← required current).toUniversal codec
    (Definition.ofUniversal text codec).mapError .universal
  | pass writerKey readerKey => do
    let text ← (Conversion.fromDefinition (← required current) writerKey).mapError .conversion
    (Conversion.toDefinition text readerKey).mapError .conversion

/-- The definition at hand after an edit. -/
def Edit.apply (current : Option Definition) (edit : Edit) (codec : Codec := .standard) :
    Option Definition :=
  match edit.result current codec with
  | .ok d => some d
  | .error _ => current

/-- The definition at hand after a series of edits. -/
def run (current : Option Definition) (edits : List Edit) (codec : Codec := .standard) :
    Option Definition :=
  edits.foldl (fun d edit => edit.apply d codec) current

/-- What can be asked about the definition at hand. -/
inductive Query where
  | member (name : String)
  | findings
  | fileName (vendorKey : String)
  | write (vendorKey : String)
  | encode

/-- The answer to a query. -/
inductive Answer where
  | member (found : Option Member)
  | findings (found : List Finding)
  | text (text : String)

/-- Answer a query. -/
def Query.answer (current : Option Definition) (query : Query) (codec : Codec := .standard) :
    Except Error Answer := do
  let d ← required current
  match query with
  | member name => return .member (d.member? name)
  | findings => return .findings (Validation.checkDefinition d)
  | fileName vendorKey =>
    match Vendor.ofKey? vendorKey with
    | some vendor => return .text (vendor.exportFileName d.name)
    | none => .error (.unknownVendor vendorKey)
  | write vendorKey => return .text (← (Conversion.fromDefinition d vendorKey).mapError .conversion)
  | encode => return .text (d.toUniversal codec)

end PlcTypes.Session
