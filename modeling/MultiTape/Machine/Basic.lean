import MultiTape.Description.Basic
import MultiTape.Machine.Configuration
import MultiTape.Table.Basic

/-
  This file defines machines: a table with the configuration
  that it works on, and the single step.

  Key definitions include:
    * `Step`
    * `Verdict`
    * `Machine`
    * `Machine.create`
    * `Machine.register`
    * `Machine.step`
    * `Machine.verdict`
    * `Machine.reset`
-/

namespace MultiTape

------------------------------------------------------------
-- Steps and verdicts
------------------------------------------------------------

/- A step that was taken. -/
structure Step where
  /- The number of the step, from one. -/
  index : Nat
  /- The state before the step. -/
  state : State
  /- The symbols that were under the heads. -/
  read : List Symbol
  /- The state after the step. -/
  nextState : State
  deriving DecidableEq, Repr

/- What is said of a run that came to an end. -/
inductive Verdict where
  /- It ended in an accepting state. -/
  | accept
  /- It ended in another state. -/
  | reject
  /- It stopped because nothing was bound to the key. -/
  | missingTransition (key : Key)
  deriving DecidableEq, Repr

------------------------------------------------------------
-- Machines
------------------------------------------------------------

/- A machine at work. -/
structure Machine where
  /- The name of the machine. -/
  name : String
  /- What is on the control tape in the beginning. -/
  input : List Symbol
  /- The declared states. -/
  states : List State
  /- The state in the beginning. -/
  start : State
  /- The accepting states. -/
  accept : List State
  /- The actions. -/
  table : Table
  /- The number of steps that a run may reach, if it is limited. -/
  maxSteps : Option Nat
  /- The state and the tapes. -/
  configuration : Configuration
  /- The number of steps taken so far. -/
  steps : Nat
  deriving DecidableEq

namespace Machine

/-
  A machine without actions. It has at least one tape and at
  most `maxTapes`; wildcards stand for the symbols of the input
  and the blank.
-/
def create
    (name : String)
    (tapes : Nat)
    (input : List Symbol)
    (states : List State)
    (start : State)
    (accept : List State) : Except Error Machine :=
  if tapes = 0 ∨ tapes > maxTapes then
    .error (.tapeCount tapes)
  else
    .ok {
      name := name
      input := input
      states := states
      start := start
      accept := accept
      table := Table.ofSymbols tapes input
      maxSteps := none
      configuration := Configuration.initial tapes start input
      steps := 0 }

/- Handle repeated keys in another way from now on. -/
def setMode
    (m : Machine)
    (mode : Mode) : Machine :=
  { m with table := m.table.setMode mode }

/- Limit the number of steps, or lift the limit. -/
def setMaxSteps
    (m : Machine)
    (maxSteps : Option Nat) : Machine :=
  { m with maxSteps := maxSteps }

/- Let wildcards stand for more symbols from now on. -/
def extendAlphabet
    (m : Machine)
    (symbols : List Symbol) : Machine :=
  { m with table := m.table.extendAlphabet symbols }

/- Add a rule to the table. -/
def register
    (m : Machine)
    (r : Rule) : Except Error (Machine × Table.Registration) :=
  (m.table.register r).map fun (table, registration) =>
    ({ m with table := table }, registration)

/- Go back to the beginning; the table stays as it is. -/
def reset
    (m : Machine) : Machine :=
  { m with
    configuration := Configuration.initial m.configuration.tapes.length m.start m.input
    steps := 0 }

/- The state of the machine. -/
def state
    (m : Machine) : State :=
  m.configuration.state

/- The symbols under the heads. -/
def symbols
    (m : Machine) : List Symbol :=
  m.configuration.symbols

/- The state was declared. -/
def IsDeclared
    (m : Machine)
    (state : State) : Prop :=
  state ∈ m.states

instance
    (m : Machine)
    (state : State) :
    Decidable (m.IsDeclared state) :=
  inferInstanceAs (Decidable (state ∈ m.states))

/- The state is accepting. -/
def IsAccepting
    (m : Machine)
    (state : State) : Prop :=
  state ∈ m.accept

instance
    (m : Machine)
    (state : State) :
    Decidable (m.IsAccepting state) :=
  inferInstanceAs (Decidable (state ∈ m.accept))

/- What the present state says. -/
def verdict
    (m : Machine) : Verdict :=
  if m.IsAccepting m.state then .accept else .reject

/-
  Take one step: read under all heads, look up the action, then
  write, move and change the state. Without an action nothing
  is changed.
-/
def step
    (m : Machine) : Except Error (Machine × Step) :=
  match m.table.lookup m.state m.symbols with
  | none => .error (.noTransition m.configuration.key)
  | some a =>
      .ok
        ({ m with
            configuration := m.configuration.apply a
            steps := m.steps + 1 },
          ⟨m.steps + 1, m.state, m.symbols, a.nextState⟩)

/- The step with an action. -/
theorem step_of_lookup_eq_some
    {m : Machine}
    {a : Action}
    (h : m.table.lookup m.state m.symbols = some a) :
    m.step =
      .ok
        ({ m with
            configuration := m.configuration.apply a
            steps := m.steps + 1 },
          ⟨m.steps + 1, m.state, m.symbols, a.nextState⟩) := by
  rw [step, h]

/- There is no step exactly when there is no action. -/
theorem step_eq_error_iff
    {m : Machine}
    {e : Error} :
    m.step = .error e ↔
      m.table.lookup m.state m.symbols = none ∧ e = .noTransition m.configuration.key := by
  unfold step
  cases h : m.table.lookup m.state m.symbols with
  | none =>
      constructor
      · intro hStep
        cases hStep
        exact ⟨rfl, rfl⟩
      · rintro ⟨-, rfl⟩
        rfl
  | some a =>
      constructor
      · intro hStep
        cases hStep
      · rintro ⟨hNone, -⟩
        cases hNone

end Machine

end MultiTape
