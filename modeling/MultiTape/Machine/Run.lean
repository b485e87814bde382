import MultiTape.Machine.Event

/-
  This file runs machines. Steps are taken while the head of the
  control tape is on a symbol other than the blank, and then one
  more. A run is cut short by a missing action or by the limit on
  steps; since a machine may never halt, a run also takes the
  number of steps to try, and goes on from where it stopped when
  it is called again.

  Key definitions include:
    * `TraceEntry`
    * `Run`
    * `Machine.advance`
    * `Machine.run`
    * `Run.events`
-/

namespace MultiTape

------------------------------------------------------------
-- Runs
------------------------------------------------------------

/- A step with the configuration that it led to. -/
structure TraceEntry where
  step : Step
  configuration : Configuration
  deriving DecidableEq, Repr

/- A run, or a part of one. -/
structure Run where
  /- The machine where the run stopped. -/
  machine : Machine
  /- The steps that were taken. -/
  trace : List TraceEntry
  /- How the run ended; nothing if it could go on. -/
  outcome : Option (Except Error Verdict)

/- Put a step in front of a run. -/
def Run.after
    (entry : TraceEntry)
    (r : Run) : Run :=
  { r with trace := entry :: r.trace }

namespace Machine

/- The limit on steps, if it is reached. -/
def spent?
    (m : Machine) : Option Nat :=
  m.maxSteps.filter (· ≤ m.steps)

/- Take one step of a run, within the limit on steps. -/
def advance
    (m : Machine) : Except Error (Machine × Step) :=
  match m.spent? with
  | some limit => .error (.stepLimit limit)
  | none => m.step

/- How a run ends that cannot take a step. -/
def stop : Error → Except Error Verdict
  | .noTransition key => .ok (.missingTransition key)
  | e => .error e

/- Take steps, with those before them in reverse order. -/
def runOnto : Nat → Machine → List TraceEntry → Run
  | 0, m, taken => ⟨m, taken.reverse, none⟩
  | fuel + 1, m, taken =>
      match m.advance with
      | .error e => ⟨m, taken.reverse, some (stop e)⟩
      | .ok (next, step) =>
          let taken := ⟨step, next.configuration⟩ :: taken
          if m.configuration.AtBlank then
            ⟨next, taken.reverse, some (.ok next.verdict)⟩
          else
            runOnto fuel next taken

/- Run a machine, for at most the given number of steps. -/
def run
    (m : Machine)
    (fuel : Nat) : Run :=
  runOnto fuel m []

private theorem runOnto_eq
    (fuel : Nat)
    (m : Machine)
    (taken : List TraceEntry) :
    runOnto fuel m taken =
      { m.run fuel with trace := taken.reverse ++ (m.run fuel).trace } := by
  unfold run
  induction fuel generalizing m taken with
  | zero => simp [runOnto]
  | succ fuel ih =>
      unfold runOnto
      cases m.advance with
      | error e => simp
      | ok p =>
          obtain ⟨next, step⟩ := p
          simp only
          split
          · simp
          · rw [ih next (⟨step, next.configuration⟩ :: taken), ih next [_]]
            simp

/- Without steps to try nothing happens. -/
theorem run_zero
    (m : Machine) :
    m.run 0 = ⟨m, [], none⟩ :=
  rfl

/- A run is its first step and the run from there. -/
theorem run_succ
    (m : Machine)
    (fuel : Nat) :
    m.run (fuel + 1) =
      match m.advance with
      | .error e => ⟨m, [], some (stop e)⟩
      | .ok (next, step) =>
          if m.configuration.AtBlank then
            ⟨next, [⟨step, next.configuration⟩], some (.ok next.verdict)⟩
          else
            (next.run fuel).after ⟨step, next.configuration⟩ := by
  conv => lhs; unfold run runOnto
  cases m.advance with
  | error e => rfl
  | ok p =>
      obtain ⟨next, step⟩ := p
      simp only
      split
      · rfl
      · rw [runOnto_eq]
        rfl

end Machine

------------------------------------------------------------
-- Events
------------------------------------------------------------

namespace Run

/- What is worth noting at the end of a run. -/
def closingEvents
    (r : Run) : List Event :=
  match r.outcome with
  | some (.ok verdict) => [.runFinished r.machine.steps verdict]
  | _ => []

/- What is worth noting of a run from beginning to end. -/
def events
    (r : Run) : List Event :=
  [.runStarted r.machine.name r.machine.input] ++
    r.trace.map (fun entry => .stepped entry.step) ++
    r.closingEvents

end Run

end MultiTape
