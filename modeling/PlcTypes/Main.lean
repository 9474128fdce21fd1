import PlcTypes.CommandLine.Run

/-!
# The command line

The commands on the files of the system. Settings are kept in the user's configuration
directory.
-/

namespace PlcTypes

/-- The fault that an error of the system stands for. -/
def FileFault.ofSystem (error : IO.Error) : FileFault :=
  match error with
  | .noFileOrDirectory .. => missing
  | .alreadyExists .. => taken
  | .inappropriateType _ code _ => if code = 21 then isDirectory else notDirectory
  | .invalidArgument _ 36 _ => nameTooLong
  | error => other (toString error)

/-- Try an operation. -/
def attempt {α : Type} (operation : IO α) : IO (Except FileFault α) := do
  try
    return .ok (← operation)
  catch error =>
    return .error (.ofSystem error)

/-- Whether a path leads to a directory. -/
def leadsToDirectory (path : String) : IO Bool := do
  try
    let _ ← IO.FS.Handle.mk (path ++ "/.") .read
    return true
  catch _ =>
    return false

/-- The operations of the file system. -/
def systemAccess : FileAccess IO where
  read path := do
    if ← leadsToDirectory path then return .error .isDirectory
    match ← attempt (IO.FS.readBinFile path) with
    | .error fault => return .error fault
    | .ok bytes =>
      match String.fromUTF8? bytes with
      | some text => return .ok text
      | none => return .error .notText
  isDirectory := leadsToDirectory
  write path text := do
    if ← leadsToDirectory path then return .error .isDirectory
    attempt (IO.FS.writeFile path text)
  makeDirectory path := attempt (IO.FS.createDir path)

/-- The settings file, if the user has a configuration directory. -/
def settingsFile? : IO (Option String) := do
  let ofHome := (← IO.getEnv "HOME").map fun home => Path.join home ".config"
  let own := (← IO.getEnv "XDG_CONFIG_HOME").filter Path.isAbsolute
  return (own <|> ofHome).map fun directory => Path.join directory "plcudt/settings.json"

end PlcTypes

open PlcTypes in
/-- Run the command of the argument list. -/
def main (arguments : List String) : IO UInt32 := do
  let report ← CommandLine.run systemAccess (← settingsFile?) arguments
  IO.print (report.stdout (.lines fun _ => "not a settings file"))
  IO.eprint report.stderr
  return report.exitCode
