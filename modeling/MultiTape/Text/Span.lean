/-
  This file defines places in a text: character positions
  counted from zero, stretches between two of them, and the
  line and column (both from one) at which a position stands.

  Key definitions include:
    * `Span`
    * `Position`
    * `position`
    * `splitLines`
    * `lineAt`
    * `linesOf`
-/

namespace MultiTape.Text

------------------------------------------------------------
-- Spans
------------------------------------------------------------

/- The stretch of a text from one position up to another. -/
structure Span where
  start : Nat
  stop : Nat
  deriving DecidableEq, Repr

/- The characters inside a span. -/
def Span.slice
    (s : Span)
    (text : List Char) : List Char :=
  (text.drop s.start).take (s.stop - s.start)

------------------------------------------------------------
-- Lines and columns
------------------------------------------------------------

/- A line and a column. -/
structure Position where
  line : Nat
  column : Nat
  deriving DecidableEq, Repr

namespace Position

/- Where a text begins. -/
def origin : Position :=
  ⟨1, 1⟩

/- The beginning of the following line. -/
def nextLine
    (p : Position) : Position :=
  ⟨p.line + 1, 1⟩

/- The following column. -/
def nextColumn
    (p : Position) : Position :=
  ⟨p.line, p.column + 1⟩

/-
  Pass over a text. A line feed ends a line, also together with
  a carriage return before it; a carriage return alone is a
  character like any other.
-/
def pass
    (p : Position) : List Char → Position
  | [] => p
  | '\r' :: '\n' :: rest => pass p.nextLine rest
  | '\n' :: rest => pass p.nextLine rest
  | _ :: rest => pass p.nextColumn rest

end Position

/- The line and column of a character position. -/
def position
    (text : List Char)
    (index : Nat) : Position :=
  Position.origin.pass (text.take index)

------------------------------------------------------------
-- The text of lines
------------------------------------------------------------

/- Cut a text after every line feed. -/
def splitLines : List Char → List (List Char)
  | [] => []
  | c :: rest =>
      if c = '\n' then
        [c] :: splitLines rest
      else
        match splitLines rest with
        | [] => [[c]]
        | line :: lines => (c :: line) :: lines

/- The characters after the last line feed. -/
def afterLastLineFeed
    (cs : List Char) : List Char :=
  (cs.reverse.takeWhile (· ≠ '\n')).reverse

/- The whole line around a position, with its line feed. -/
def lineAt
    (text : List Char)
    (index : Nat) : List Char :=
  afterLastLineFeed (text.take index) ++ (splitLines (text.drop index)).headD []

/- The lines that begin before a position, the first beginning at another. -/
def linesBefore
    (stop : Nat) : Nat → List (List Char) → List (List Char)
  | _, [] => []
  | start, line :: lines =>
      if start < stop then
        line :: linesBefore stop (start + line.length) lines
      else
        []

/-
  The whole lines that a span touches. A span at the end of the
  text touches none, and an empty span elsewhere touches the
  line that it stands in.
-/
def linesOf
    (text : List Char)
    (s : Span) : List (List Char) :=
  match splitLines (text.drop s.start) with
  | [] => []
  | line :: lines =>
      (afterLastLineFeed (text.take s.start) ++ line) ::
        linesBefore s.stop (s.start + line.length) lines

/- Cutting into lines loses nothing. -/
theorem flatten_splitLines
    (cs : List Char) :
    (splitLines cs).flatten = cs := by
  induction cs with
  | nil => rfl
  | cons c cs ih =>
      unfold splitLines
      split
      · simp [ih]
      · split
        · next hEq => simpa [hEq] using ih
        · next hEq => simpa [hEq] using ih

end MultiTape.Text
