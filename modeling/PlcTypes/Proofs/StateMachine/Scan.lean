import PlcTypes.Proofs.StateMachine.Reading

/-!
# State machine code follows its table

A controller runs the program once a scan, on the state number, its name, the sub-state and the
command pulses of the instance. Between the scans the equipment sets the sub-state and the pulses.
Whatever they are set to, a scan takes the first transition of the table that leaves the state at
hand and whose guard holds, and clears all pulses.
-/

namespace PlcTypes.StateMachine

/-- The variables of an instance. The state number is any number. -/
structure Variables where
  state : Int
  stateName : String
  subState : Int
  pulses : Command → Bool

/-- What the equipment sets before a scan. -/
structure Input where
  subState : Int
  pulses : Command → Bool

namespace Variables

/-- The variables as the equipment sets them. -/
def receive (v : Variables) (input : Input) : Variables :=
  { v with subState := input.subState, pulses := input.pulses }

/-- Withdraw a command. -/
def clear (v : Variables) (command : Command) : Variables :=
  { v with pulses := fun other => if other = command then false else v.pulses other }

/-- The state number is that of a state, and the name is that of the same state. -/
def IsNamed (v : Variables) : Prop :=
  ∃ state : State, v.state = state.code ∧ v.stateName = state.name

end Variables

/-- Whether a guard holds. -/
def Guard.holds (v : Variables) : Guard → Bool
  | .command asked => v.pulses asked
  | .complete => v.subState == completeCode

/-- Carry out an assignment. -/
def Assignment.apply (v : Variables) : Assignment → Variables
  | state code => { v with state := code }
  | stateName name => { v with stateName := name }
  | subState value => { v with subState := value }

/-- Run the first branch whose guard holds, if there is one. -/
def Case.run (v : Variables) (c : Case) : Variables :=
  match c.branches.find? fun branch => branch.guard.holds v with
  | some branch => branch.body.foldl Assignment.apply v
  | none => v

namespace Program

/-- One scan: the first case of the state number, if there is one, and then the clearing of the
commands. -/
def scan (program : Program) (v : Variables) : Variables :=
  let found := program.cases.find? fun c => (c.label : Int) == v.state
  program.clears.foldl Variables.clear (found.elim v (Case.run v))

/-- A run of scans. -/
def run (program : Program) (start : Variables) (inputs : List Input) : Variables :=
  inputs.foldl (fun v input => program.scan (v.receive input)) start

end Program

/-- The first transition of the table that leaves the state at hand and whose guard holds. -/
def Variables.due? (v : Variables) : Option Transition :=
  transitions.find? fun transition =>
    (transition.source.code : Int) == v.state && transition.guard.holds v

/-- The variables with a transition taken. -/
def Variables.enter (v : Variables) (transition : Transition) : Variables :=
  { v with
    state := transition.target.code
    stateName := transition.target.name
    subState := 0 }

/-- What the table asks of a scan. -/
def Variables.step (v : Variables) : Variables :=
  { v.due?.elim v v.enter with pulses := fun _ => false }

section Scan

/-- The states have different numbers. -/
theorem code_beq_code (first second : State) :
    ((first.code : Int) == second.code) = (first == second) := by
  cases first <;> cases second <;> rfl

/-- A state number has the case of its state. -/
theorem find?_case (state : State) :
    (State.all.map Case.of).find? (fun c => (c.label : Int) == state.code) = some (Case.of state) := by
  cases state <;> rfl

/-- Clearing all commands withdraws every pulse and touches nothing else. -/
theorem foldl_clear (v : Variables) :
    Command.all.foldl Variables.clear v = { v with pulses := fun _ => false } := by
  have hpulses : (Command.all.foldl Variables.clear v).pulses = fun _ => false := by
    funext command
    cases command <;> rfl
  rw [← hpulses]
  rfl

/-- The transition that is due in a state is the first one leaving it whose guard holds. -/
theorem due?_of_state {v : Variables} {state : State} (h : v.state = state.code) :
    v.due? = (transitionsFrom state).find? fun transition => transition.guard.holds v := by
  rw [Variables.due?, transitionsFrom, List.find?_filter, h]
  simp only [code_beq_code, Bool.decide_and, Bool.decide_eq_true]

/-- The case of the state at hand takes the transition that is due. -/
theorem run_case {v : Variables} {state : State} (h : v.state = state.code) :
    (Case.of state).run v = v.due?.elim v v.enter := by
  rw [Case.run, Case.of, List.find?_map, due?_of_state h]
  simp only [Function.comp_def, Branch.of]
  cases (transitionsFrom state).find? fun transition => transition.guard.holds v with
  | none => rfl
  | some transition => rfl

/-- At a number that is not one of a state there is no case, and no transition is due. -/
theorem find?_eq_none {v : Variables} (h : ∀ state : State, v.state ≠ state.code) :
    (State.all.map Case.of).find? (fun c => (c.label : Int) == v.state) = none ∧ v.due? = none := by
  constructor
  · rw [List.find?_map, Option.map_eq_none_iff, List.find?_eq_none]
    intro state _ hlabel
    exact h state (beq_iff_eq.mp hlabel).symm
  · rw [Variables.due?, List.find?_eq_none]
    intro transition _ hdue
    rw [Bool.and_eq_true, beq_iff_eq] at hdue
    exact h transition.source hdue.1.symm

/-- A scan of the program does what the table asks for. -/
theorem scan_eq_step (v : Variables) :
    Program.scan ⟨State.all.map Case.of, Command.all⟩ v = v.step := by
  rw [Program.scan, foldl_clear, Variables.step]
  by_cases hstate : ∃ state : State, v.state = state.code
  · obtain ⟨state, hstate⟩ := hstate
    rw [← run_case hstate, hstate, find?_case, Option.elim_some]
  · obtain ⟨hcase, hdue⟩ := find?_eq_none (not_exists.mp hstate)
    rw [hcase, hdue]
    rfl

/-- What the table asks for keeps the name with the state number. -/
theorem Variables.IsNamed.step {v : Variables} (h : v.IsNamed) : v.step.IsNamed := by
  rw [Variables.step]
  cases v.due? with
  | none => exact h
  | some transition => exact ⟨transition.target, rfl, rfl⟩

end Scan

section Run

variable {program : Program}

/-- A run goes on from where it stands. -/
theorem Program.run_append (start : Variables) (earlier later : List Input) :
    program.run start (earlier ++ later) = program.run (program.run start earlier) later :=
  List.foldl_append

/-- A run ends with a scan. -/
theorem Program.run_concat (start : Variables) (earlier : List Input) (input : Input) :
    program.run start (earlier ++ [input]) =
      program.scan ((program.run start earlier).receive input) :=
  Program.run_append start earlier [input]

/-- A run of scans that do what the table asks for keeps the name with the state number. -/
theorem Program.isNamed_run (hscan : ∀ v, program.scan v = v.step) {start : Variables}
    (h : start.IsNamed) (inputs : List Input) : (program.run start inputs).IsNamed := by
  induction inputs generalizing start with
  | nil => exact h
  | cons input inputs ih =>
    have hreceived : (start.receive input).IsNamed := h
    rw [Program.run, List.foldl_cons, hscan]
    exact ih hreceived.step

end Run

/-- The code of a state machine, read back, has one case for each state, with the transitions that
leave the state in the order of the table. So in any run of scans, from any start and with anything
set before each scan, a scan takes the first transition that leaves the state and whose guard holds,
or else leaves the state, its name and the sub-state alone. It clears all pulses, and once the name
is that of the state it stays so. -/
theorem scans_follow_table (style : CodeStyle) {instanceName : String}
    (h : '\n' ∉ instanceName.toList) :
    ∃ program, Program.ofText? (style.path instanceName) (code style instanceName) = some program ∧
      (∀ state : State, program.cases.filter (fun c => c.label == state.code) =
        [⟨state.code, (transitionsFrom state).map fun transition =>
          ⟨transition.guard, [.state transition.target.code, .stateName transition.target.name,
            .subState 0]⟩⟩]) ∧
      (∀ c ∈ program.cases, ∃ state : State, c.label = state.code) ∧
      (∀ (start : Variables) (earlier : List Input) (input : Input),
        let before := (program.run start earlier).receive input
        let after := program.run start (earlier ++ [input])
        (∀ transition, before.due? = some transition → after.state = transition.target.code ∧
          after.stateName = transition.target.name ∧ after.subState = 0) ∧
        (before.due? = none → after.state = before.state ∧ after.stateName = before.stateName ∧
          after.subState = before.subState) ∧
        ∀ command, after.pulses command = false) ∧
      ∀ (start : Variables) (earlier later : List Input), (program.run start earlier).IsNamed →
        (program.run start (earlier ++ later)).IsNamed := by
  refine ⟨_, ofText?_code style h, ?_, ?_, ?_, ?_⟩
  · intro state
    cases state <;> rfl
  · intro c hc
    obtain ⟨state, -, rfl⟩ := List.mem_map.mp hc
    exact ⟨state, rfl⟩
  · intro start earlier input before after
    have hafter : after = before.step :=
      (Program.run_concat start earlier input).trans (scan_eq_step before)
    rw [hafter, Variables.step]
    refine ⟨fun transition hdue => ?_, fun hdue => ?_, fun command => rfl⟩
    · rw [hdue]
      exact ⟨rfl, rfl, rfl⟩
    · rw [hdue]
      exact ⟨rfl, rfl, rfl⟩
  · intro start earlier later hnamed
    rw [Program.run_append]
    exact Program.isNamed_run scan_eq_step hnamed later

/-- An instance whose name looks like code, in which all commands are given at once: holding has
priority in the state of number three. -/
theorem scan_all_commands : '\n' ∉ "IF 3: (* Tank. *)".toList ∧ ∃ program,
    Program.ofText? "IF 3: (* Tank. *)" (code ⟨false, .block⟩ "IF 3: (* Tank. *)") = some program ∧
      (program.run ⟨3, "", 0, fun _ => false⟩ [⟨100, fun _ => true⟩]).stateName = "HOLDING" := by
  have h : '\n' ∉ "IF 3: (* Tank. *)".toList := by decide
  obtain ⟨program, hread, -, -, hscan, -⟩ := scans_follow_table ⟨false, .block⟩ h
  have hholding := (hscan ⟨3, "", 0, fun _ => false⟩ [] ⟨100, fun _ => true⟩).1
    ⟨.execute, .command .hold, .holding⟩ rfl
  exact ⟨h, program, hread, hholding.2.1⟩

end PlcTypes.StateMachine
