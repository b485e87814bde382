import MultiTape.Alphabet
import MultiTape.Description.Basic
import MultiTape.StateSet

/-
  This file examines descriptions for declarations that do not
  fit together. A machine is built in spite of most of them, so
  it is up to the caller whether they matter.

  Key definitions include:
    * `Finding`
    * `Description.findings`
-/

namespace MultiTape

/- Something in a description that does not fit. -/
inductive Finding where
  /- A rule has not one entry for every tape. -/
  | inconsistentArity (state : State)
  /- The start state is not declared. -/
  | undeclaredStart (state : State)
  /- Accepting states that are not declared. -/
  | undeclaredAccept (states : List State)
  /- States of rules that are not declared. -/
  | undeclaredStates (states : List State)
  /- No rule begins at the start state. -/
  | noStartRule (state : State)
  /- Symbols that rules write and that no wildcard stands for. -/
  | unmatchedSymbols (symbols : List Symbol)
  deriving DecidableEq, Repr

namespace Description

/- A list of complaints counts only if there is one. -/
def complain
    {α : Type}
    (report : List α → Finding) : List α → Option Finding
  | [] => none
  | items => some (report items)

/- The first rule without one entry for every tape. -/
def checkArity
    (d : Description) : Option Finding :=
  (d.rules.find? fun r =>
      r.read.length ≠ d.tapes ∨ r.write.length ≠ d.tapes ∨ r.moves.length ≠ d.tapes).map
    fun r => .inconsistentArity r.state

/- The start state has to be declared. -/
def checkStart
    (d : Description) : Option Finding :=
  if d.start ∈ d.states then none else some (.undeclaredStart d.start)

/- The states of a list that are not declared. -/
def undeclared
    (d : Description)
    (states : List State) : List State :=
  let declared := StateSet.ofList d.states
  states.filter (· ∉ declared)

/- Accepting states have to be declared. -/
def checkAccept
    (d : Description) : Option Finding :=
  complain .undeclaredAccept (d.undeclared d.accept)

/- The states of rules have to be declared. -/
def checkStates
    (d : Description) : Option Finding :=
  complain .undeclaredStates <|
    ascending (d.undeclared (d.rules.flatMap fun r => [r.state, r.nextState]))

/- Some rule has to begin at the start state. -/
def checkStartRule
    (d : Description) : Option Finding :=
  if ∃ r ∈ d.rules, r.state = d.start then none else some (.noStartRule d.start)

/-
  Where wildcards are used, rules should write only symbols that
  a wildcard stands for: those of the input and the blank.
  Nothing is said of a wildcard that is written.
-/
def checkWritten
    (d : Description) : Option Finding :=
  if ∃ r ∈ d.rules, r.HasWildcard then
    let alphabet := Alphabet.ofSymbols d.input
    complain .unmatchedSymbols <|
      ascending <|
        (d.rules.flatMap Rule.write).filter fun c => c ≠ Symbol.wildcard ∧ c ∉ alphabet
  else
    none

/- Everything that does not fit, in the order of the checks. -/
def findings
    (d : Description) : List Finding :=
  [checkArity, checkStart, checkAccept, checkStates, checkStartRule, checkWritten].filterMap
    fun check => check d

/- Undeclared states are the ones outside of the list of states. -/
theorem undeclared_eq
    (d : Description)
    (states : List State) :
    d.undeclared states = states.filter (· ∉ d.states) := by
  unfold undeclared
  refine List.filter_congr fun s _ => ?_
  simp [StateSet.mem_ofList]

end Description

end MultiTape
