import MultiTape.Rule

/-
  This file defines what is said of a machine before it is
  built.

  Key definitions include:
    * `Description`
-/

namespace MultiTape

/-
  A machine as it is described. The rules keep their order,
  since a later rule may take the place of an earlier one.
-/
structure Description where
  /- The name of the machine. -/
  name : String
  /- The number of tapes. -/
  tapes : Nat
  /- What is on the control tape in the beginning. -/
  input : List Symbol
  /- The declared states. -/
  states : List State
  /- The state in the beginning. -/
  start : State
  /- The accepting states. -/
  accept : List State
  /- How rules with the same key are handled. -/
  mode : Mode
  /- The rules, possibly with wildcards. -/
  rules : List Rule
  deriving DecidableEq, Repr

end MultiTape
