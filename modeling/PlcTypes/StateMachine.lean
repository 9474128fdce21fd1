/-!
# The equipment state machine

Ten operating states, seven pulsed commands and twelve transitions. A state is left on a
command, or on the completion of its work, which is reported by a sub-state of one hundred.
The order of the table is the priority of the transitions that leave a state.
-/

namespace PlcTypes.StateMachine

/-- The operating states. -/
inductive State where
  | stopped
  | idle
  | starting
  | execute
  | holding
  | held
  | stopping
  | aborting
  | aborted
  | unholding
  deriving DecidableEq, Repr

namespace State

/-- All states, by code. -/
def all : List State :=
  [stopped, idle, starting, execute, holding, held, stopping, aborting, aborted, unholding]

/-- The number of a state. Seven is reserved. -/
def code : State → Nat
  | stopped => 0
  | idle => 1
  | starting => 2
  | execute => 3
  | holding => 4
  | held => 5
  | stopping => 6
  | aborting => 8
  | aborted => 9
  | unholding => 10

/-- The name of a state. -/
def name : State → String
  | stopped => "STOPPED"
  | idle => "IDLE"
  | starting => "STARTING"
  | execute => "EXECUTE"
  | holding => "HOLDING"
  | held => "HELD"
  | stopping => "STOPPING"
  | aborting => "ABORTING"
  | aborted => "ABORTED"
  | unholding => "UNHOLDING"

/-- The state of a number. -/
def ofCode? (code : Nat) : Option State := all.find? fun state => state.code == code

/-- The state of a machine at rest. -/
def initial : State := stopped

end State

/-- The commands. -/
inductive Command where
  | reset
  | start
  | stop
  | hold
  | unhold
  | abort
  | clear
  deriving DecidableEq, Repr

namespace Command

/-- All commands. -/
def all : List Command := [reset, start, stop, hold, unhold, abort, clear]

/-- The name of a command. -/
def name : Command → String
  | reset => "Reset"
  | start => "Start"
  | stop => "Stop"
  | hold => "Hold"
  | unhold => "Unhold"
  | abort => "Abort"
  | clear => "Clear"

end Command

/-- The condition of a transition: a command, or the completion of the state's work. -/
inductive Guard where
  | command (command : Command)
  | complete
  deriving DecidableEq, Repr

/-- The sub-state that reports completion. -/
def completeCode : Nat := 100

/-- A transition between two states. -/
structure Transition where
  source : State
  guard : Guard
  target : State
  deriving DecidableEq, Repr

/-- All transitions. -/
def transitions : List Transition :=
  [⟨.stopped, .command .reset, .idle⟩,
   ⟨.idle, .command .start, .starting⟩,
   ⟨.starting, .complete, .execute⟩,
   ⟨.execute, .command .hold, .holding⟩,
   ⟨.execute, .command .stop, .stopping⟩,
   ⟨.execute, .command .abort, .aborting⟩,
   ⟨.holding, .complete, .held⟩,
   ⟨.held, .command .unhold, .unholding⟩,
   ⟨.stopping, .complete, .stopped⟩,
   ⟨.aborting, .complete, .aborted⟩,
   ⟨.aborted, .command .clear, .stopped⟩,
   ⟨.unholding, .complete, .execute⟩]

/-- The transitions that leave a state, highest priority first. -/
def transitionsFrom (state : State) : List Transition :=
  transitions.filter fun transition => transition.source == state

end PlcTypes.StateMachine
