import MultiTape.Symbol
import MultiTape.Text.Excerpt

/-
  This file defines why a text is no description.

  Key definitions include:
    * `HeaderRecord`
    * `Expectation`
    * `Problem`
    * `Fault`
-/

namespace MultiTape

open MultiTape.Text (Span Excerpt)

------------------------------------------------------------
-- Records
------------------------------------------------------------

/- The records that have to follow the first one, in order. -/
inductive HeaderRecord where
  | input
  | states
  | start
  | accept
  deriving DecidableEq, Repr

/- The name of a record in messages. -/
def HeaderRecord.name : HeaderRecord → String
  | input => "input"
  | states => "states"
  | start => "start"
  | accept => "accept"

------------------------------------------------------------
-- Causes
------------------------------------------------------------

/- What could have stood where the text could not be read on. -/
inductive Expectation where
  /- Nothing of the text could be read. -/
  | description
  /- The end of the text. -/
  | endOfText
  /- The end of the text or a quoted field. -/
  | endOrQuoted
  deriving DecidableEq, Repr

/- What was expected, in words. -/
def Expectation.message : Expectation → String
  | description => "expected description"
  | endOfText => "expected EOI"
  | endOrQuoted => "expected EOI or quoted"

/- What is wrong with the text of a field or a record. -/
inductive Problem where
  /- The first record has one field only. -/
  | missingTapeCount
  /- The tape count is no numeral of a count. -/
  | invalidTapeCount (text : List Char)
  /- The tape count is zero. -/
  | noTapes
  /- The tape count is above the limit. -/
  | tooManyTapes
  /- The start state is empty. -/
  | missingStart
  /- A symbol is not a single character. -/
  | invalidSymbol (text : List Char)
  /- A movement is not one of the codes. -/
  | invalidMove (text : List Char)
  deriving DecidableEq, Repr

/- A problem in words. -/
def Problem.message : Problem → String
  | missingTapeCount => "Missing tape count"
  | invalidTapeCount text => "Invalid tape count: " ++ String.ofList text
  | noTapes => "Tape count must be at least 1"
  | tooManyTapes => "Tape count must be at most " ++ toString maxTapes
  | missingStart => "Missing start state"
  | invalidSymbol text => "Symbol must be a single character: '" ++ String.ofList text ++ "'"
  | invalidMove text => "Unsupported direction: " ++ String.ofList text

------------------------------------------------------------
-- Faults
------------------------------------------------------------

/- Why a text is no description. -/
inductive Fault where
  /- The text is not comma separated from a position on. -/
  | ungrammatical (index : Nat) (expectation : Expectation)
  /- A field or a record does not hold what it should. -/
  | unsuitable (span : Span) (problem : Problem)
  /- The text ends before a record that has to be there. -/
  | missingRecord (record : HeaderRecord)
  /- A rule has too few or too many fields. -/
  | fieldCount (state : State) (found expected : Nat)
  deriving DecidableEq, Repr

namespace Fault

/- The place in the text that a fault speaks of, if it has one. -/
def excerpt?
    (source : List Char) : Fault → Option Excerpt
  | ungrammatical index _ => some (Excerpt.atIndex source index)
  | unsuitable span _ => some (Excerpt.ofSpan source span)
  | missingRecord _ => none
  | fieldCount _ _ _ => none

end Fault

end MultiTape
