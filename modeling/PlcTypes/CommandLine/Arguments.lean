import PlcTypes.Text.Search
import PlcTypes.Vendor

/-!
# Command-line arguments

The first argument names the command and the others are for it. Options may stand anywhere
among the positional arguments, up to two dashes alone, and may be given once. Their values
follow as an argument of their own or after an equals sign. An argument list that is not of this
form is rejected as a whole.
-/

namespace PlcTypes.CommandLine

open Text

/-- What can be asked on the command line. Output goes to a file if one is given. -/
inductive Command where
  | convert (file : String) (source target output : Option String)
  | importFile (vendorKey file : String) (output : Option String)
  | exportFile (vendorKey file : String) (output : Option String)
  | stateMachine (instanceName vendorKey : String) (output : Option String)
  | standard (key : String) (name : Option String) (json : Bool)
  | validate (file : String)
  | vendors
  | config (source target : Option Vendor) (extension : Option String)
  | version
  deriving DecidableEq, Repr

/-- The options a command knows: those with a value, those without, and whether the letter `o`
stands for the option `output`. -/
structure Shape where
  valued : List String
  flags : List String
  output : Bool

/-- The arguments of a command, sorted. -/
structure Sorted where
  positional : List String
  values : List (String × String)
  flags : List String

namespace Sorted

/-- No arguments. -/
def empty : Sorted := ⟨[], [], []⟩

/-- Put a positional argument in front. -/
def addPositional (sorted : Sorted) (argument : String) : Sorted :=
  { sorted with positional := argument :: sorted.positional }

/-- Put in an option that has not been given yet. -/
def addValue? (sorted : Sorted) (name value : String) : Option Sorted :=
  if (sorted.values.lookup name).isSome then none
  else some { sorted with values := (name, value) :: sorted.values }

/-- Put in a flag that has not been given yet. -/
def addFlag? (sorted : Sorted) (name : String) : Option Sorted :=
  if name ∈ sorted.flags then none else some { sorted with flags := name :: sorted.flags }

/-- The value of an option. -/
def value? (sorted : Sorted) (name : String) : Option String := sorted.values.lookup name

end Sorted

/-- An argument as it is written. -/
inductive Word where
  | plain
  | stop
  | long (name : String) (attached : Option String)
  | short (letters : List Char)

/-- Tell what an argument is. One dash alone is plain. -/
def Word.of (argument : String) : Word :=
  match argument.toList with
  | ['-', '-'] => .stop
  | '-' :: '-' :: text =>
    match cut? ['='] text with
    | some (name, value) => .long (String.ofList name) (some (String.ofList value))
    | none => .long (String.ofList text) none
  | '-' :: c :: text => .short (c :: text)
  | _ => .plain

/-- Whether an argument can be the value of the option before it. -/
def isValue (argument : String) : Bool :=
  match Word.of argument with
  | .plain => true
  | _ => false

/-- The option that a word stands for, with the value that is attached to it. -/
def Shape.option? (shape : Shape) : Word → Option (String × Option String)
  | .long name attached => if name ∈ shape.valued then some (name, attached) else none
  | .short letters =>
    if shape.output then
      match letters with
      | ['o'] => some ("output", none)
      | 'o' :: '=' :: value => some ("output", some (String.ofList value))
      | 'o' :: value => some ("output", some (String.ofList value))
      | _ => none
    else none
  | _ => none

/-- Sort the arguments of a command. -/
def Shape.sort? (shape : Shape) : List String → Option Sorted
  | [] => some .empty
  | argument :: rest =>
    match Word.of argument with
    | .plain => (shape.sort? rest).map fun sorted => sorted.addPositional argument
    | .stop => some ⟨rest, [], []⟩
    | word =>
      match shape.option? word, rest with
      | some (name, some value), rest => (shape.sort? rest).bind fun s => s.addValue? name value
      | some (name, none), value :: rest =>
        if isValue value then (shape.sort? rest).bind fun s => s.addValue? name value else none
      | some (_, none), [] => none
      | none, rest =>
        match word with
        | .long name none =>
          if name ∈ shape.flags then (shape.sort? rest).bind fun s => s.addFlag? name else none
        | _ => none

/-- A path, which cannot be empty. -/
def path? (text : String) : Option String := if text.isEmpty then none else some text

/-- Check the value of an option that may be left out. -/
def optional? {α : Type} (check : String → Option α) : Option String → Option (Option α)
  | none => some none
  | some text => (check text).map some

/-- The shape of the commands that write a text. -/
def writing (others : List String) : Shape := ⟨"output" :: others, [], true⟩

/-- Read the arguments of `convert`. -/
def convert? (arguments : List String) : Option Command := do
  let sorted ← (writing ["from", "to"]).sort? arguments
  let [file] := sorted.positional | none
  some <| .convert (← path? file) (sorted.value? "from") (sorted.value? "to")
    (← optional? path? (sorted.value? "output"))

/-- Read the arguments of a command that takes a vendor and a file. -/
def vendorAndFile? (command : String → String → Option String → Command)
    (arguments : List String) : Option Command := do
  let sorted ← (writing []).sort? arguments
  let [vendorKey, file] := sorted.positional | none
  some <| command vendorKey (← path? file) (← optional? path? (sorted.value? "output"))

/-- Read the arguments of `generate-sm`. -/
def stateMachine? (arguments : List String) : Option Command := do
  let sorted ← (writing []).sort? arguments
  let [instanceName, vendorKey] := sorted.positional | none
  some <| .stateMachine instanceName vendorKey (← optional? path? (sorted.value? "output"))

/-- Read the arguments of `add`. -/
def standard? (arguments : List String) : Option Command := do
  let sorted ← (Shape.mk ["name"] ["json"] false).sort? arguments
  let [key] := sorted.positional | none
  some <| .standard key (sorted.value? "name") (sorted.flags.contains "json")

/-- Read the arguments of `validate`. -/
def validate? (arguments : List String) : Option Command := do
  let sorted ← (Shape.mk [] [] false).sort? arguments
  let [file] := sorted.positional | none
  some <| .validate (← path? file)

/-- Read the arguments of `vendors`. -/
def vendors? (arguments : List String) : Option Command := do
  let sorted ← (Shape.mk [] [] false).sort? arguments
  if sorted.positional.isEmpty then some .vendors else none

/-- Read the arguments of `config`. -/
def config? (arguments : List String) : Option Command := do
  let sorted ← (Shape.mk ["source", "target", "extension"] [] false).sort? arguments
  let [] := sorted.positional | none
  some <| .config (← optional? Vendor.ofKey? (sorted.value? "source"))
    (← optional? Vendor.ofKey? (sorted.value? "target")) (sorted.value? "extension")

/-- Whether an argument asks for the version. -/
def asksVersion (argument : String) : Bool :=
  argument == "--version" || "-V".toList.isPrefixOf argument.toList

/-- Read an argument list. -/
def Command.ofArguments? : List String → Option Command
  | [] => none
  | name :: arguments =>
    if asksVersion name then some .version
    else
      match name with
      | "convert" => convert? arguments
      | "import" => vendorAndFile? .importFile arguments
      | "export" => vendorAndFile? .exportFile arguments
      | "generate-sm" => stateMachine? arguments
      | "add" => standard? arguments
      | "validate" => validate? arguments
      | "vendors" => vendors? arguments
      | "config" => config? arguments
      | _ => none

end PlcTypes.CommandLine
