import PlcTypes.DataType

/-!
# Controller vendors

Four vendors, each with a key, a display name and the extension of its files. Keys and
extensions are compared in any letter case. All vendors' texts can be written and all but one
vendor's read. Reading fails for want of a type declaration or on the first wrong member.
-/

namespace PlcTypes

open Text

/-- The vendors whose type declarations are exchanged. -/
inductive Vendor where
  | rockwell
  | siemens
  | codesys
  | beckhoff
  deriving DecidableEq, Repr

namespace Vendor

/-- All vendors, in the order in which they are listed. -/
def all : List Vendor := [rockwell, siemens, codesys, beckhoff]

/-- The key by which a vendor is asked for. -/
def key : Vendor → String
  | rockwell => "rockwell"
  | siemens => "siemens"
  | codesys => "codesys"
  | beckhoff => "beckhoff"

/-- The name shown to people. -/
def displayName : Vendor → String
  | rockwell => "Rockwell"
  | siemens => "Siemens"
  | codesys => "CODESYS"
  | beckhoff => "Beckhoff"

/-- The extension of the vendor's files, without the dot. -/
def extension : Vendor → String
  | rockwell => "L5X"
  | siemens => "scl"
  | codesys => "st"
  | beckhoff => "TcDUT"

/-- Whether the vendor's texts can be read. -/
def canImport : Vendor → Bool
  | codesys => false
  | _ => true

/-- Whether the vendor's texts can be written. -/
def canExport (_ : Vendor) : Bool := true

/-- The vendor of a key in any letter case. -/
def ofKey? (text : String) : Option Vendor :=
  all.find? fun vendor => sameIgnoringCase vendor.key.toList text.toList

/-- The vendor of a key that may have white space around it. -/
def ofTrimmedKey? (text : String) : Option Vendor := ofKey? (String.ofList (trim text.toList))

/-- All keys, with commas between them. -/
def keys : String := ", ".intercalate (all.map key)

/-- The vendors whose files have an extension, given with or without dots in front. -/
def ofExtension (text : String) : List Vendor :=
  let text := text.toList.dropWhile (· == '.')
  all.filter fun vendor => sameIgnoringCase vendor.extension.toList text

/-- The name of the file a definition is exported to. -/
def exportFileName (vendor : Vendor) (name : String) : String := name ++ "." ++ vendor.extension

end Vendor

/-- What can be wrong with a member declaration. -/
inductive MemberFault where
  | noName
  | noType
  | bounds (error : BoundError)
  deriving DecidableEq, Repr

/-- The report of a member fault. -/
def MemberFault.message : MemberFault → String
  | noName => "missing Name attribute"
  | noType => "missing DataType attribute"
  | bounds error => error.message

/-- Why a vendor's text cannot be read. -/
inductive FormatError where
  | noDeclaration (vendor : Vendor)
  | badMember (vendor : Vendor) (member : String) (fault : MemberFault)
  deriving DecidableEq, Repr

/-- What a vendor's text must hold to declare a type. -/
def Vendor.anchor : Vendor → String
  | .rockwell => "DataType"
  | _ => "TYPE declaration"

/-- The report of a format error. -/
def FormatError.message : FormatError → String
  | noDeclaration vendor =>
    "Invalid " ++ vendor.displayName ++ " format: no " ++ vendor.anchor ++ " found"
  | badMember vendor member fault =>
    "Invalid " ++ vendor.displayName ++ " member '" ++ member ++ "': " ++ fault.message

end PlcTypes
