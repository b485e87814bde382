import MultiTape.Alphabet
import MultiTape.Error
import MultiTape.Table.Bindings

/-
  This file defines the table of a machine. Rules are expanded
  when they are registered: one rule without wildcards for every
  symbol of the alphabet. Looking up an action is then a matter
  of exact equality.

  Key definitions include:
    * `Table`
    * `Table.ofSymbols`
    * `Table.lookup`
    * `Table.expand`
    * `Table.conflict?`
    * `Table.bindAll`
    * `Table.register`
    * `Registration`
-/

namespace MultiTape

------------------------------------------------------------
-- Tables
------------------------------------------------------------

/- The actions of a machine and what is needed to add some. -/
structure Table where
  /- The number of tapes. -/
  tapes : Nat
  /- How repeated keys are handled. -/
  mode : Mode
  /- What a wildcard stands for in rules yet to come. -/
  alphabet : Alphabet
  /- The actions, by their keys. -/
  bindings : Bindings
  deriving DecidableEq

namespace Table

/- A table without actions, over the given symbols and the blank. -/
def ofSymbols
    (tapes : Nat)
    (symbols : List Symbol) : Table where
  tapes := tapes
  mode := .overwrite
  alphabet := Alphabet.ofSymbols symbols
  bindings := Bindings.empty

/- The action for a state and the symbols under the heads. -/
def lookup
    (t : Table)
    (state : State)
    (symbols : List Symbol) : Option Action :=
  t.bindings.find? ⟨state, symbols⟩

/- The number of actions. -/
def size
    (t : Table) : Nat :=
  t.bindings.size

/- Handle repeated keys in another way from now on. -/
def setMode
    (t : Table)
    (mode : Mode) : Table :=
  { t with mode := mode }

/- Let wildcards stand for more symbols from now on. -/
def extendAlphabet
    (t : Table)
    (symbols : List Symbol) : Table :=
  { t with alphabet := t.alphabet.extend symbols }

------------------------------------------------------------
-- Expansion
------------------------------------------------------------

/-
  The rules without wildcards that a rule stands for, in the
  order of the symbols put in.
-/
def expand
    (t : Table)
    (r : Rule) : List Rule :=
  if r.HasWildcard then
    t.alphabet.symbols.map r.substitute
  else
    [r]

/- The first part of a rule that has not one entry for every tape. -/
def misfit?
    (t : Table)
    (r : Rule) : Option Error :=
  if r.read.length ≠ t.tapes then
    some (.malformedRule r.state .read r.read.length t.tapes)
  else if r.write.length ≠ t.tapes then
    some (.malformedRule r.state .write r.write.length t.tapes)
  else if r.moves.length ≠ t.tapes then
    some (.malformedRule r.state .moves r.moves.length t.tapes)
  else
    none

------------------------------------------------------------
-- Registration
------------------------------------------------------------

/- The key of a rule is bound to another action. -/
def Overwrites
    (r : Rule)
    (b : Bindings) : Prop :=
  ∃ a ∈ b.find? r.key, a ≠ r.action

instance
    (r : Rule)
    (b : Bindings) :
    Decidable (Overwrites r b) :=
  inferInstanceAs (Decidable (∃ a ∈ b.find? r.key, a ≠ r.action))

/-
  The first key that the rules, one after the other, would bind
  to another action than the one it has by then.
-/
def conflict? : Bindings → List Rule → Option Key
  | _, [] => none
  | b, r :: rules =>
      if Overwrites r b then
        some r.key
      else
        conflict? (b.insert r.key r.action) rules

/- Bind rules one after the other, with the keys that lose another action. -/
def bindAll : Bindings → List Rule → Bindings × List Key
  | b, [] => (b, [])
  | b, r :: rules =>
      let (bindings, overwritten) := bindAll (b.insert r.key r.action) rules
      (bindings, if Overwrites r b then r.key :: overwritten else overwritten)

/- What came of a rule that was registered. -/
structure Registration where
  /- The number of rules that it stands for. -/
  count : Nat
  /- The keys that lost another action, in the order of binding. -/
  overwritten : List Key
  deriving DecidableEq, Repr

/-
  Add a rule. It has to have one entry for every tape, and in
  strict mode it must not give a key another action than it has;
  otherwise nothing is added.
-/
def register
    (t : Table)
    (r : Rule) : Except Error (Table × Registration) :=
  match t.misfit? r with
  | some e => .error e
  | none =>
      let rules := t.expand r
      match (if t.mode = .strict then conflict? t.bindings rules else none) with
      | some key => .error (.conflictingRule key)
      | none =>
          let (bindings, overwritten) := bindAll t.bindings rules
          .ok ({ t with bindings := bindings }, ⟨rules.length, overwritten⟩)

end Table

end MultiTape
