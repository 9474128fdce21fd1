import PlcTypes.StateMachine
import PlcTypes.Vendor

/-!
# State machine code

The machine as a structured text program over the status and the commands of one instance: a
case per state, in it a branch per transition in order of priority, and behind the cases the
clearing of all commands.
-/

namespace PlcTypes.StateMachine

/-- How the title comment is written. -/
inductive CommentStyle where
  | block
  | line
  deriving DecidableEq, Repr

/-- The choices that differ between the vendors. -/
structure CodeStyle where
  quotesInstance : Bool
  title : CommentStyle
  deriving DecidableEq, Repr

/-- The choices of a vendor. -/
def CodeStyle.ofVendor : Vendor → CodeStyle
  | .siemens => ⟨true, .block⟩
  | .beckhoff => ⟨false, .line⟩
  | .rockwell | .codesys => ⟨false, .block⟩

/-- The instance as it is addressed. -/
def CodeStyle.path (style : CodeStyle) (instanceName : String) : String :=
  if style.quotesInstance then "\"" ++ instanceName ++ "\"" else instanceName

/-- The title comment. -/
def CodeStyle.titleLine (style : CodeStyle) (instanceName : String) : String :=
  let title := "PackML State Machine for " ++ instanceName
  match style.title with
  | .block => "(* " ++ title ++ " *)"
  | .line => "// " ++ title

/-- The condition of a transition. -/
def guardText (path : String) : Guard → String
  | .command command => path ++ ".Command." ++ command.name
  | .complete => path ++ ".Status.SubState = " ++ toString completeCode

/-- The lines of one branch, opened by the given keyword. -/
def branchLines (path keyword : String) (transition : Transition) : List String :=
  ["    " ++ keyword ++ " " ++ guardText path transition.guard ++ " THEN",
   "      " ++ path ++ ".Status.State := " ++ toString transition.target.code ++ "; (* " ++
     transition.target.name ++ " *)",
   "      " ++ path ++ ".Status.StateName := '" ++ transition.target.name ++ "';",
   "      " ++ path ++ ".Status.SubState := 0;"]

/-- The lines of all branches of a state. -/
def branchesLines (path : String) : List Transition → List String
  | [] => []
  | first :: others => branchLines path "IF" first ++ others.flatMap (branchLines path "ELSIF")

/-- The lines of one state. -/
def caseLines (path : String) (state : State) : List String :=
  ("  " ++ toString state.code ++ ": (* " ++ state.name ++ " *)") ::
    (branchesLines path (transitionsFrom state) ++ ["    END_IF;", ""])

/-- The line that clears a command. -/
def clearLine (path : String) (command : Command) : String :=
  path ++ ".Command." ++ command.name ++ " := FALSE;"

/-- The lines of the program. -/
def codeLines (style : CodeStyle) (instanceName : String) : List String :=
  let path := style.path instanceName
  [style.titleLine instanceName, "", "CASE " ++ path ++ ".Status.State OF"] ++
    State.all.flatMap (caseLines path) ++
    ["END_CASE;", "", "(* Clear all commands after processing *)"] ++
    Command.all.map (clearLine path)

/-- The program as a text. -/
def code (style : CodeStyle) (instanceName : String) : String :=
  String.join ((codeLines style instanceName).map fun line => line ++ "\n")

end PlcTypes.StateMachine
