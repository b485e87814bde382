import MultiTape.Machine.Basic
import MultiTape.Text.Terminal

/-
  This file defines what is worth noting while a machine is
  built and run, and how it is put into a log.

  Key definitions include:
    * `Event`
    * `Event.level`
    * `Event.message`
    * `Event.fields`
    * `Event.logLine`
    * `Table.Registration.events`
-/

namespace MultiTape

------------------------------------------------------------
-- Events
------------------------------------------------------------

/- Something worth noting. -/
inductive Event where
  /- A finding that is tolerated. -/
  | finding (finding : Finding)
  /- A key has lost another action. -/
  | overwritten (key : Key)
  /- A rule was registered, standing for this many. -/
  | registered (state : State) (read : List Symbol) (count : Nat)
  /- A run has begun. -/
  | runStarted (name : String) (input : List Symbol)
  /- A step was taken. -/
  | stepped (step : Step)
  /- A run has come to a verdict. -/
  | runFinished (steps : Nat) (verdict : Verdict)
  deriving DecidableEq, Repr

/- How much an event matters. -/
inductive Level where
  | warn
  | debug
  | trace
  deriving DecidableEq, Repr

/- The name of a level. -/
def Level.name : Level → String
  | warn => "WARN"
  | debug => "DEBUG"
  | trace => "TRACE"

/- A value beside an event. -/
inductive FieldValue where
  | number (n : Nat)
  | text (s : String)
  deriving DecidableEq, Repr

/- A value as it stands in a log. -/
def FieldValue.render : FieldValue → String
  | number n => toString n
  | text s => s

/- A verdict in its literal form. -/
def Verdict.literal : Verdict → String
  | accept => "Accept"
  | reject => "Reject"
  | missingTransition key =>
      "RejectedByMissingTransition \x7b state: " ++ Text.stringLiteral key.state ++
        ", symbols: " ++ Text.charsLiteral key.read ++ " \x7d"

namespace Event

/- How much the event matters. -/
def level : Event → Level
  | finding _ => .warn
  | overwritten _ => .warn
  | registered _ _ _ => .debug
  | runStarted _ _ => .debug
  | stepped _ => .trace
  | runFinished _ _ => .debug

/- The part of the program in which the event arises. -/
def origin : Event → String
  | finding _ => "ktape_cli"
  | overwritten _ => "ktape::table"
  | registered _ _ _ => "ktape::table"
  | runStarted _ _ => "ktape::machine"
  | stepped _ => "ktape::machine"
  | runFinished _ _ => "ktape::machine"

/- The event in words. -/
def message : Event → String
  | finding f => f.message
  | overwritten _ => "transition overwritten by a later registration"
  | registered _ _ _ => "registered transition"
  | runStarted _ _ => "run started"
  | stepped _ => "step"
  | runFinished _ _ => "run finished"

/- The values beside the event. -/
def fields : Event → List (String × FieldValue)
  | finding _ => []
  | overwritten key =>
      [("state", .text key.state), ("read", .text (Text.charsLiteral key.read))]
  | registered state read count =>
      [("state", .text state), ("read", .text (Text.charsLiteral read)),
        ("concrete", .number count)]
  | runStarted name input => [("machine", .text name), ("input", .text (String.ofList input))]
  | stepped step =>
      [("step", .number step.index), ("from", .text step.state), ("to", .text step.nextState),
        ("read", .text (Text.charsLiteral step.read))]
  | runFinished steps verdict =>
      [("steps", .number steps), ("verdict", .text verdict.literal)]

/-
  The event as a line of a log. Nothing in its words is obeyed by
  a terminal; the values beside it are written as they are.
-/
def logLine
    (e : Event) : String :=
  let values := e.fields.map fun (name, value) => " " ++ name ++ "=" ++ value.render
  e.level.name ++ " " ++ e.origin ++ ": " ++ Text.disarm e.message ++ String.join values

end Event

------------------------------------------------------------
-- Registration
------------------------------------------------------------

/- What is worth noting of a rule that was registered. -/
def Table.Registration.events
    (g : Table.Registration)
    (r : Rule) : List Event :=
  g.overwritten.map .overwritten ++ [.registered r.state r.read g.count]

end MultiTape
