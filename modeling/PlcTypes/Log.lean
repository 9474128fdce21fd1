import PlcTypes.DataType

/-!
# Log records

What a run notes besides its result: that a settings file was ignored, what of a type is lost in a
vendor's text, that a text was converted and that a file was written. The lines of the records go to
the standard output, in front of what a command prints there. How a record is written as a line, and
from which level on, is for a writer to say. Records that only help to find faults are below every
level that is shown by default and are left out.
-/

namespace PlcTypes

open Number

/-- How much a record matters. -/
inductive LogLevel where
  | warning
  | info
  deriving DecidableEq, Repr

/-- The mark of a level in a line. -/
def LogLevel.mark : LogLevel → String
  | warning => "WARN"
  | info => "INFO"

/-- What a run notes. A settings file that is ignored is noted with its text, since the reason is in
it. -/
inductive LogRecord where
  | settingsIgnored (path text : String)
  | uncounted (type : DataType)
  | lowerBoundLost (lower : Int64)
  | converted (source target : String) (size : Nat)
  | wrote (path : String)
  deriving DecidableEq, Repr

namespace LogRecord

/-- The level of a record. -/
def level : LogRecord → LogLevel
  | settingsIgnored .. | uncounted _ | lowerBoundLost _ => .warning
  | converted .. | wrote _ => .info

/-- The message of a record, given what is wrong with the text of a settings file. -/
def message (reason : String → String) : LogRecord → String
  | settingsIgnored path text => "Ignoring unreadable settings file " ++ path ++ ": " ++ reason text
  | uncounted type => "Rockwell: " ++ type.spelling ++ " has no element count, writing it unsized"
  | lowerBoundLost lower =>
    "Rockwell arrays are zero-based; lower bound " ++ showInt64 lower ++ " is not preserved"
  | converted source target size =>
    "Converted " ++ source ++ " -> " ++ target ++ " (" ++ toString size ++ " bytes)"
  | wrote path => "Wrote " ++ path

end LogRecord

/-- A value with what was noted on the way to it. -/
structure Logged (α : Type) where
  log : List LogRecord
  value : α
  deriving DecidableEq, Repr

/-- A value with nothing noted. -/
def Logged.quiet {α : Type} (value : α) : Logged α := ⟨[], value⟩

/-- A way to write records as lines. Where nothing is noted, nothing is written. -/
structure LogWriter where
  write : List LogRecord → String
  write_nil : write [] = ""

namespace LogWriter

/-- The writer that is switched off. -/
def silent : LogWriter := ⟨fun _ => "", rfl⟩

/-- The writer of a line for each record, with its level and its message. -/
def lines (reason : String → String) : LogWriter where
  write log :=
    String.join (log.map fun record => record.level.mark ++ " " ++ record.message reason ++ "\n")
  write_nil := rfl

end LogWriter

end PlcTypes
