import MultiTape.CommandLine.Options
import MultiTape.Json.Encode
import MultiTape.Machine.Build
import MultiTape.Machine.Run
import MultiTape.Machine.Transcript

/-
  This file says what the program writes and how it exits, given
  its options and the description that was loaded.

  Key definitions include:
    * `prepare`
    * `Output.opening`
    * `Output.entry`
    * `Output.closing`
    * `exitCode`
    * `Session`
    * `Options.simulate`
-/

namespace MultiTape.CommandLine

------------------------------------------------------------
-- Preparation
------------------------------------------------------------

/-
  Build the machine of a description. Findings are logged, or are
  errors if the options ask for it; so are overwritten actions.
-/
def Options.build
    (o : Options)
    (d : Description) : Build :=
  if o.strict then
    match d.findings with
    | f :: _ => ⟨[], .error (.finding f)⟩
    | [] => Machine.ofDescription { d with mode := .strict }
  else
    (Machine.ofDescription d).after (d.findings.map .finding)

/- Build the machine that is to be run, if its description was loaded. -/
def Options.prepare
    (o : Options) : Except Error Description → Build
  | .error e => ⟨[], .error e⟩
  | .ok d =>
      let b := o.build d
      { b with result := b.result.map fun m => m.setMaxSteps o.maxSteps }

------------------------------------------------------------
-- Output
------------------------------------------------------------

namespace Output

/- What is written before the first step. -/
def opening
    (m : Machine) : Output → List String
  | transcript => [Transcript.header m]
  | quiet => []
  | json => []

/- What is written after every step. -/
def entry
    (e : TraceEntry) : Output → List String
  | transcript => [Transcript.step e.step e.configuration]
  | quiet => []
  | json => [e.toJson.render]

/- What is written of a verdict. -/
def closing
    (m : Machine)
    (v : Verdict) : Output → List String
  | transcript => [Transcript.verdict v m.input]
  | quiet => [Transcript.verdict v m.input]
  | json => [(m.summary v).render]

end Output

/- The lines of a log that the options ask for. -/
def Options.log
    (o : Options)
    (events : List Event) : List String :=
  let shown := events.filter fun e =>
    match e.level with
    | .warn => true
    | .debug => o.verbose
    | .trace => false
  shown.map Event.logLine

/- An error in a log. -/
def errorLine
    (e : Error) : String :=
  "Error: " ++ e.message

------------------------------------------------------------
-- Exit codes
------------------------------------------------------------

/- The exit code for arguments that make no sense. -/
def usageFailure : Nat :=
  2

/- The exit code for a machine that could not be built. -/
def loadFailure : Nat :=
  2

/- The exit code of a run: zero if it ended by itself, whatever the verdict. -/
def exitCode : Except Error Verdict → Nat
  | .ok .accept => 0
  | .ok .reject => 0
  | .ok (.missingTransition _) => 1
  | .error _ => 1

------------------------------------------------------------
-- Sessions
------------------------------------------------------------

/- Everything the program shows. Every line is followed by a line feed. -/
structure Session where
  exit : Nat
  stdout : List String
  stderr : List String
  deriving DecidableEq, Repr

/- Lines as they are written. -/
def unlines
    (lines : List String) : String :=
  String.join (lines.map (· ++ "\n"))

/- What is written to standard output at the end of a run. -/
def Options.verdictLines
    (o : Options)
    (m : Machine) : Except Error Verdict → List String
  | .ok v => o.output.closing m v
  | .error _ => []

/- What is written to standard error at the end of a run. -/
def errorLines : Except Error Verdict → List String
  | .ok _ => []
  | .error e => [errorLine e]

/-
  Run the machine of a loaded description, for at most the given
  number of steps. There is no session if the run could go on.
-/
def Options.simulate
    (o : Options)
    (loaded : Except Error Description)
    (fuel : Nat) : Option Session :=
  let b := o.prepare loaded
  match b.result with
  | .error e => some ⟨loadFailure, [], o.log b.events ++ [errorLine e]⟩
  | .ok m =>
      let r := m.run fuel
      r.outcome.map fun outcome =>
        { exit := exitCode outcome
          stdout :=
            o.output.opening m ++
              r.trace.flatMap (fun e => o.output.entry e) ++
              o.verdictLines r.machine outcome
          stderr := o.log (b.events ++ r.events) ++ errorLines outcome }

/- The session that shows the version. -/
def versionSession : Session :=
  ⟨0, ["ktape-cli 0.0.1"], []⟩

end MultiTape.CommandLine
