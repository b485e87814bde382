/-
  This file fixes the vocabulary of tapes and control states,
  with the two symbols that have a meaning of their own.

  Key definitions include:
    * `Symbol`
    * `Symbol.blank`
    * `Symbol.wildcard`
    * `State`
    * `maxTapes`
-/

namespace MultiTape

------------------------------------------------------------
-- Symbols
------------------------------------------------------------

/- A tape symbol is a single character. -/
abbrev Symbol :=
  Char

/-
  The content of every cell that was never written. It belongs
  to every alphabet.
-/
def Symbol.blank : Symbol :=
  '_'

/-
  Stands for any symbol of the alphabet in a rule. It belongs
  to no alphabet.
-/
def Symbol.wildcard : Symbol :=
  '*'

/- The two reserved symbols differ. -/
theorem Symbol.blank_ne_wildcard :
    Symbol.blank ≠ Symbol.wildcard := by
  decide

------------------------------------------------------------
-- States
------------------------------------------------------------

/- A control state is known by its name only. -/
abbrev State :=
  String

------------------------------------------------------------
-- Limits
------------------------------------------------------------

/- The largest number of tapes of a machine. -/
def maxTapes : Nat :=
  1024

end MultiTape
