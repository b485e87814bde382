import MultiTape.Symbol
import MultiTape.Move

/-
  This file defines the rules of a machine as they are written
  in a description, and the two halves of a rule without
  wildcards: the key that it answers to and the action that it
  takes.

  Key definitions include:
    * `Rule`
    * `Rule.HasWildcard`
    * `Rule.substitute`
    * `Key`
    * `Action`
    * `Mode`
-/

namespace MultiTape

------------------------------------------------------------
-- Keys and actions
------------------------------------------------------------

/- The state and the symbols under the heads that select a rule. -/
structure Key where
  state : State
  read : List Symbol
  deriving DecidableEq, Repr

/- What a machine does once a rule was selected. -/
structure Action where
  nextState : State
  write : List Symbol
  moves : List Move
  deriving DecidableEq, Repr

------------------------------------------------------------
-- Rules
------------------------------------------------------------

/-
  A rule with one symbol to read, one symbol to write and one
  movement for every tape. The wildcard may stand among the
  symbols.
-/
structure Rule where
  state : State
  read : List Symbol
  nextState : State
  write : List Symbol
  moves : List Move
  deriving DecidableEq, Repr

namespace Rule

/- The wildcard stands in the read or in the write half. -/
def HasWildcard
    (r : Rule) : Prop :=
  Symbol.wildcard ∈ r.read ∨ Symbol.wildcard ∈ r.write

instance
    (r : Rule) :
    Decidable r.HasWildcard :=
  inferInstanceAs (Decidable (_ ∨ _))

/- Put one symbol in the place of every wildcard of a list. -/
def fill
    (c : Symbol)
    (symbols : List Symbol) : List Symbol :=
  symbols.map fun s => if s = Symbol.wildcard then c else s

/- Put one symbol in the place of every wildcard of a rule. -/
def substitute
    (r : Rule)
    (c : Symbol) : Rule :=
  { r with
    read := fill c r.read
    write := fill c r.write }

/- The key that a rule without wildcards answers to. -/
def key
    (r : Rule) : Key :=
  ⟨r.state, r.read⟩

/- The action of a rule without wildcards. -/
def action
    (r : Rule) : Action :=
  ⟨r.nextState, r.write, r.moves⟩

/- Filling keeps the number of symbols. -/
@[simp]
theorem length_fill
    (c : Symbol)
    (symbols : List Symbol) :
    (fill c symbols).length = symbols.length :=
  List.length_map _

/- Filling a list without wildcards changes nothing. -/
theorem fill_of_not_mem
    {c : Symbol}
    {symbols : List Symbol}
    (h : Symbol.wildcard ∉ symbols) :
    fill c symbols = symbols := by
  unfold fill
  conv => rhs; rw [← List.map_id symbols]
  refine List.map_congr_left fun s hs => ?_
  have hNe : s ≠ Symbol.wildcard := by
    rintro rfl
    exact h hs
  simp [hNe]

/- Filling with another symbol leaves no wildcard. -/
theorem wildcard_not_mem_fill
    {c : Symbol}
    {symbols : List Symbol}
    (h : c ≠ Symbol.wildcard) :
    Symbol.wildcard ∉ fill c symbols := by
  simp only [fill, List.mem_map, not_exists, not_and]
  intro s _ hEq
  split at hEq
  · exact h hEq
  · next hNe => exact hNe hEq

/- One substitution removes every wildcard. -/
theorem not_hasWildcard_substitute
    {r : Rule}
    {c : Symbol}
    (h : c ≠ Symbol.wildcard) :
    ¬ (r.substitute c).HasWildcard := by
  rintro (hRead | hWrite)
  · exact wildcard_not_mem_fill h hRead
  · exact wildcard_not_mem_fill h hWrite

end Rule

------------------------------------------------------------
-- Repeated keys
------------------------------------------------------------

/- What happens when a key is bound a second time. -/
inductive Mode where
  /- The later rule takes the place of the earlier one. -/
  | overwrite
  /- A second rule with another action is refused. -/
  | strict
  deriving DecidableEq, Repr

end MultiTape
