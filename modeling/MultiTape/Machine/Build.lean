import MultiTape.Machine.Event

/-
  This file builds machines from descriptions. What was noted
  before a failure is kept beside the error.

  Key definitions include:
    * `Build`
    * `Machine.registerAll`
    * `Machine.ofDescription`
-/

namespace MultiTape

/- What came of building a machine, and what was noted meanwhile. -/
structure Build where
  events : List Event
  result : Except Error Machine

/- Note earlier events. -/
def Build.after
    (events : List Event)
    (b : Build) : Build :=
  { b with events := events ++ b.events }

namespace Machine

/- Add rules one after the other, up to the first that is refused. -/
def registerAll
    (m : Machine) : List Rule → Build
  | [] => ⟨[], .ok m⟩
  | r :: rules =>
      match m.register r with
      | .error e => ⟨[], .error e⟩
      | .ok (next, registration) =>
          (next.registerAll rules).after (registration.events r)

/- The machine of a description, with all of its rules. -/
def ofDescription
    (d : Description) : Build :=
  match create d.name d.tapes d.input d.states d.start d.accept with
  | .error e => ⟨[], .error e⟩
  | .ok m => (m.setMode d.mode).registerAll d.rules

end Machine

end MultiTape
