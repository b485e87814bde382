import MultiTape.Json.Basic
import MultiTape.Machine.Run

/-
  This file gives the JSON form of descriptions and of what a run
  shows. Field names stand in ascending order.

  Key definitions include:
    * `Description.toJson`
    * `TraceEntry.toJson`
    * `Verdict.toJson`
    * `Run.summary`
-/

namespace MultiTape

------------------------------------------------------------
-- Rules and descriptions
------------------------------------------------------------

/- The name of a movement. -/
def Move.name : Move → String
  | left => "Left"
  | right => "Right"
  | stay => "Stay"

/- The name of a mode. -/
def Mode.name : Mode → String
  | overwrite => "Overwrite"
  | strict => "Strict"

/- A list of movements, each by its name. -/
def Json.moves
    (ms : List Move) : Json :=
  .strings (ms.map Move.name)

/- A rule as an object. -/
def Rule.toJson
    (r : Rule) : Json :=
  .object [
    ("directions", .moves r.moves),
    ("next_state", .string r.nextState),
    ("read", .chars r.read),
    ("state", .string r.state),
    ("write", .chars r.write)]

/- An action as an object. -/
def Action.toJson
    (a : Action) : Json :=
  .object [
    ("directions", .moves a.moves),
    ("next_state", .string a.nextState),
    ("write", .chars a.write)]

/- A description as an object. -/
def Description.toJson
    (d : Description) : Json :=
  .object [
    ("accept", .strings d.accept),
    ("input", .string (String.ofList d.input)),
    ("mode", .string d.mode.name),
    ("name", .string d.name),
    ("start", .string d.start),
    ("states", .strings d.states),
    ("tapes", .nat d.tapes),
    ("transitions", .array (d.rules.map Rule.toJson))]

------------------------------------------------------------
-- Runs
------------------------------------------------------------

/- The kept cells of a tape and the place of its head. -/
def Tape.toJson
    (t : Tape) : Json :=
  .object [("cells", .chars t.cells), ("head", .nat t.head)]

/- A configuration as an object. -/
def Configuration.toJson
    (c : Configuration) : Json :=
  .object [("state", .string c.state), ("tapes", .array (c.tapes.map Tape.toJson))]

/- A step as an object. -/
def Step.toJson
    (s : Step) : Json :=
  .object [
    ("index", .nat s.index),
    ("next_state", .string s.nextState),
    ("read", .chars s.read),
    ("state", .string s.state)]

/- A step and the configuration that it led to. -/
def TraceEntry.toJson
    (e : TraceEntry) : Json :=
  .object [("configuration", e.configuration.toJson), ("step", e.step.toJson)]

/- A verdict by its name, with the key for which nothing was bound. -/
def Verdict.toJson : Verdict → Json
  | accept => .string "Accept"
  | reject => .string "Reject"
  | missingTransition key =>
      .object [
        ("RejectedByMissingTransition",
          .object [("state", .string key.state), ("symbols", .chars key.read)])]

/- A run that came to a verdict. -/
def Machine.summary
    (m : Machine)
    (v : Verdict) : Json :=
  .object [
    ("accepted", .bool (v = .accept)),
    ("input", .string (String.ofList m.input)),
    ("machine", .string m.name),
    ("steps", .nat m.steps),
    ("verdict", v.toJson)]

end MultiTape
