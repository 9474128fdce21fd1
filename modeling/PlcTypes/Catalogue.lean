import PlcTypes.Definition

/-!
# The catalogue of standard types

Thirteen ready-made definitions: the base types that every plant model shares, and the
equipment types of ISA-88, which start with references to an identifier, a status and, except
for cells and analog signals, a command interface. Each is found by a key in any letter case.
-/

namespace PlcTypes

open Text Number

/-- The standard types. -/
inductive StandardType where
  | identifier
  | status
  | command
  | value
  | alarm
  | equipmentModule
  | controlModule
  | unit
  | processCell
  | valveModule
  | motorModule
  | analogInput
  | analogOutput
  deriving DecidableEq, Repr

namespace StandardType

/-- All standard types, in the order in which their keys are listed. -/
def all : List StandardType :=
  [identifier, status, command, value, alarm, equipmentModule, controlModule, unit, processCell,
   valveModule, motorModule, analogInput, analogOutput]

/-- The key by which a standard type is asked for. -/
def key : StandardType → String
  | identifier => "identifier"
  | status => "status"
  | command => "command"
  | value => "value"
  | alarm => "alarm"
  | equipmentModule => "equipment"
  | controlModule => "control"
  | unit => "unit"
  | processCell => "cell"
  | valveModule => "valve"
  | motorModule => "motor"
  | analogInput => "analog-in"
  | analogOutput => "analog-out"

/-- The standard type of a key in any letter case. -/
def ofKey? (text : String) : Option StandardType :=
  all.find? fun type => sameIgnoringCase type.key.toList text.toList

/-- All keys, with commas between them. -/
def keys : String := ", ".intercalate (all.map key)

/-- A member that refers to another type. -/
def reference (name type description : String) : Member :=
  .of name (.named type) none description

/-- A truth value that starts out false. -/
def flag (name description : String) : Member :=
  .of name (.scalar .bool) (some (.bool false)) description

/-- A truth value that starts out true. -/
def raisedFlag (name description : String) : Member :=
  .of name (.scalar .bool) (some (.bool true)) description

/-- A short integer. -/
def count (name : String) (initial : Int64) (description : String) : Member :=
  .of name (.scalar .int) (some (.int initial)) description

/-- A point in time, in milliseconds. -/
def time (name description : String) : Member :=
  .of name (.scalar .lint) (some (.int 0)) description

/-- A real that starts out at a whole number. -/
def measure (name : String) (initial : Int) (description : String) : Member :=
  .of name (.scalar .real) (some (.real (.ofInt initial))) description

/-- A text. -/
def label (name initial description : String) : Member :=
  .of name (.scalar .string) (some (.text initial)) description

/-- A list of texts numbered from zero, without initial values. -/
def labels (name : String) (last : Int64) (description : String) : Member :=
  .of name (.array (.scalar .string) 0 last) none description

/-- The references at the head of an equipment type. -/
def header (noun : String) : List Member :=
  [reference "ID" "Identifier" (noun ++ " identifier"),
   reference "Status" "Status" (noun ++ " status"),
   reference "Command" "Command" (noun ++ " commands")]

/-- The names of the standard commands. -/
def commandNames : List String :=
  ["Reset", "Start", "Stop", "Hold", "Unhold", "Abort", "Clear", "Suspend", "Unsuspend"]

/-- The name of the definition. -/
def name : StandardType → String
  | identifier => "Identifier"
  | status => "Status"
  | command => "Command"
  | value => "Value"
  | alarm => "Alarm"
  | equipmentModule => "EquipmentModule"
  | controlModule => "ControlModule"
  | unit => "Unit"
  | processCell => "ProcessCell"
  | valveModule => "ValveModule"
  | motorModule => "MotorModule"
  | analogInput => "AnalogInputModule"
  | analogOutput => "AnalogOutputModule"

/-- The description of the definition. -/
def description : StandardType → String
  | identifier => "Universal identifier with namespace support"
  | status => "Standard status/state representation"
  | command => "Standard command interface"
  | value => "Value with quality and timestamp"
  | alarm => "Standard alarm representation"
  | equipmentModule => "ISA-88 Equipment Module"
  | controlModule => "ISA-88 Control Module - Basic equipment control"
  | unit => "ISA-88 Unit - Equipment that carries out one or more process functions"
  | processCell => "ISA-88 Process Cell - Logical grouping of equipment"
  | valveModule => "Valve control module with position feedback"
  | motorModule => "Motor control module with running feedback"
  | analogInput => "Analog input with scaling and alarming"
  | analogOutput => "Analog output with scaling"

/-- The members of the definition. -/
def members : StandardType → List Member
  | identifier =>
    [label "Namespace" "" "Namespace (e.g., \"ISA-95\", \"OPC-UA\")",
     label "ID" "" "Identifier within namespace",
     label "Version" "1.0.0" "Semantic version"]
  | status =>
    [count "State" 0 "Current state (PackML state number)",
     label "StateName" "STOPPED" "State name",
     count "SubState" 0 "Sub-state for detailed control",
     count "Mode" 0 "Operating mode (0=Manual, 1=Auto, 2=Semi)",
     flag "Error" "Error present",
     count "ErrorID" 0 "Error code",
     label "ErrorMessage" "" "Error description"]
  | command => commandNames.map fun name => flag name (name ++ " command")
  | value =>
    [measure "Val" 0 "Actual value",
     count "Quality" 192 "OPC quality code (192=Good)",
     time "Timestamp" "Unix timestamp (ms)",
     label "Unit" "" "Engineering unit"]
  | alarm =>
    [raisedFlag "Enabled" "Alarm is enabled",
     flag "Active" "Alarm is active",
     flag "Acknowledged" "Alarm acknowledged",
     count "Severity" 0 "Severity (0=Low, 1=Med, 2=High, 3=Critical)",
     time "Timestamp" "Activation timestamp",
     label "Message" "" "Alarm message",
     label "Source" "" "Alarm source"]
  | equipmentModule =>
    header "Equipment" ++
      [label "Location" "" "Physical location",
       label "Description" "" "Equipment description",
       label "Manufacturer" "" "Manufacturer name",
       label "Model" "" "Model number",
       label "SerialNumber" "" "Serial number",
       time "InstallDate" "Installation date (Unix ms)",
       time "MaintenanceDue" "Next maintenance date"]
  | controlModule =>
    header "Module" ++
      [label "ParentEquipment" "" "Parent equipment ID",
       label "Type" "" "Module type (e.g., \"Valve\", \"Motor\", \"Pump\")",
       flag "Interlock" "Interlock active",
       label "InterlockSource" "" "Interlock source description",
       flag "PermissiveOK" "All permissives satisfied",
       flag "FeedbackOK" "Feedback matches commanded state"]
  | unit =>
    header "Unit" ++
      [labels "Equipment" 31 "Equipment module IDs",
       count "EquipmentCount" 0 "Number of equipment modules",
       label "CurrentRecipe" "" "Current recipe name",
       label "BatchID" "" "Current batch ID",
       count "RecipePhase" 0 "Current recipe phase",
       measure "PhaseComplete" 0 "Phase completion %"]
  | processCell =>
    [reference "ID" "Identifier" "Cell identifier",
     reference "Status" "Status" "Cell status",
     labels "Units" 15 "Unit IDs in this cell",
     count "UnitCount" 0 "Number of units",
     count "ProductionMode" 0 "Production mode",
     label "Schedule" "" "Current production schedule"]
  | valveModule =>
    header "Valve" ++
      [flag "Open" "Open command",
       flag "Close" "Close command",
       flag "OpenFeedback" "Valve is fully open",
       flag "CloseFeedback" "Valve is fully closed",
       measure "Position" 0 "Valve position % (0-100)",
       count "FailPosition" 0 "Fail position (0=Close, 1=Open, 2=Stay)",
       measure "TravelTime" 0 "Expected travel time (s)"]
  | motorModule =>
    header "Motor" ++
      [flag "Start" "Start command",
       flag "Stop" "Stop command",
       flag "Running" "Motor running feedback",
       flag "Fault" "Motor fault",
       measure "Speed" 0 "Speed setpoint (Hz or %)",
       measure "SpeedFeedback" 0 "Actual speed",
       measure "Current" 0 "Motor current (A)",
       flag "OverloadTrip" "Overload protection tripped"]
  | analogInput =>
    [reference "ID" "Identifier" "Input identifier",
     count "RawValue" 0 "Raw ADC value",
     measure "ScaledValue" 0 "Scaled engineering value",
     label "Unit" "" "Engineering unit",
     count "RawMin" 0 "Raw minimum (e.g., 0)",
     count "RawMax" 32767 "Raw maximum (e.g., 32767)",
     measure "ScaleMin" 0 "Scaled minimum",
     measure "ScaleMax" 100 "Scaled maximum",
     measure "HighAlarm" 90 "High alarm setpoint",
     measure "LowAlarm" 10 "Low alarm setpoint",
     raisedFlag "AlarmEnabled" "Alarms enabled",
     flag "AlarmActive" "Alarm active"]
  | analogOutput =>
    [reference "ID" "Identifier" "Output identifier",
     measure "Setpoint" 0 "Engineering setpoint",
     count "RawOutput" 0 "Raw DAC value",
     label "Unit" "" "Engineering unit",
     count "RawMin" 0 "Raw minimum",
     count "RawMax" 32767 "Raw maximum",
     measure "ScaleMin" 0 "Scaled minimum",
     measure "ScaleMax" 100 "Scaled maximum",
     flag "ManualMode" "Manual mode active",
     measure "ManualValue" 0 "Manual setpoint"]

/-- The definition of a standard type. -/
def definition (type : StandardType) : Definition :=
  (Definition.bare type.name type.description).pushAll type.members

end StandardType

end PlcTypes
