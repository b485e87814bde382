import MultiTape.Text.Span

/-
  This file points at a place in a text: a message is shown
  under the line that it speaks of, with the place underlined.

  Key definitions include:
    * `Excerpt`
    * `Excerpt.atIndex`
    * `Excerpt.ofSpan`
    * `Excerpt.render`
-/

namespace MultiTape.Text

------------------------------------------------------------
-- Line ends
------------------------------------------------------------

/- The character ends a line, or is part of what ends it. -/
def IsLineEnd
    (c : Char) : Prop :=
  c = '\r' ∨ c = '\n'

instance
    (c : Char) :
    Decidable (IsLineEnd c) :=
  inferInstanceAs (Decidable (_ ∨ _))

/- Put a visible sign in the place of every line end. -/
def showLineEnds
    (cs : List Char) : List Char :=
  cs.map fun c => if c = '\r' then '␍' else if c = '\n' then '␊' else c

/- Leave the line ends out. -/
def dropLineEnds
    (cs : List Char) : List Char :=
  cs.filter fun c => decide (¬ IsLineEnd c)

------------------------------------------------------------
-- Excerpts
------------------------------------------------------------

/- A place in a text, ready to be shown. -/
structure Excerpt where
  /- Where the place begins. -/
  first : Position
  /- Where the place ends, if it is more than a point. -/
  last : Option Position
  /- The line on which the place begins. -/
  shown : List Char
  /- The line on which the place ends, if it is another one. -/
  continued : Option (List Char)
  /- The marks to stand under the shown line. -/
  marks : List Char
  deriving DecidableEq, Repr

namespace Excerpt

/- Blanks up to a column, with the tabs of the line above. -/
def indent
    (column : Nat)
    (line : List Char) : List Char :=
  (line.take (column - 1)).map fun c => if c = '\t' then '\t' else ' '

/- A point in a text, for the character that could not be read. -/
def atIndex
    (text : List Char)
    (index : Nat) : Excerpt :=
  let first := position text index
  let line := lineAt text index
  let atLineEnd := (text.drop index).head?.any fun c => decide (IsLineEnd c)
  let shown := if atLineEnd then showLineEnds line else dropLineEnds line
  { first := first
    last := none
    shown := shown
    continued := none
    marks := indent first.column shown ++ "^---".toList }

/-
  Where a span ends. The end of a line belongs to that line,
  not to the beginning of the next.
-/
def stopPosition
    (text : List Char)
    (stop : Nat) : Position :=
  let last := position text stop
  if last.column = 1 then
    (position text (stop - 1)).nextColumn
  else
    last

/- The span begins with a line end, or has another one as its last character. -/
def TouchesLineEnd
    (slice : List Char) : Prop :=
  (∃ c ∈ slice.head?, IsLineEnd c) ∨ (2 ≤ slice.length ∧ ∃ c ∈ slice.getLast?, IsLineEnd c)

instance
    (slice : List Char) :
    Decidable (TouchesLineEnd slice) :=
  inferInstanceAs (Decidable (_ ∨ (_ ∧ _)))

/- Marks from one column up to another, the second one excluded. -/
def markColumns
    (start stop : Nat)
    (line : List Char) : List Char :=
  let (a, b) := if start > stop then (stop - 1, start + 1) else (start, stop)
  indent a line ++
    if b - a > 1 then
      '^' :: List.replicate (b - a - 2) '-' ++ ['^']
    else
      ['^']

/- A stretch of a text. -/
def ofSpan
    (text : List Char)
    (s : Span) : Excerpt :=
  let first := position text s.start
  let last := stopPosition text s.stop
  let lines := linesOf text s
  let visible := decide (TouchesLineEnd (s.slice text))
  let line := lines.headD []
  let shown := if visible then showLineEnds line else dropLineEnds line
  { first := first
    last := some last
    shown := shown
    continued := (lines.drop 1).getLast?.map fun l => if visible then l else showLineEnds l
    marks := markColumns first.column last.column shown }

------------------------------------------------------------
-- Rendering
------------------------------------------------------------

/- The line number on which the place ends. -/
def lastLine
    (e : Excerpt) : Nat :=
  match e.last with
  | none => e.first.line
  | some p => p.line

/- The numeral of a number. -/
def numeral
    (n : Nat) : String :=
  String.ofList (Nat.toDigits 10 n)

/- The number of columns that line numbers take. -/
def width
    (e : Excerpt) : Nat :=
  (numeral (max e.first.line e.lastLine)).length

/- A line number, moved to the right as far as the width asks. -/
def aligned
    (width n : Nat) : String :=
  let text := numeral n
  String.ofList (List.replicate (width - text.length) ' ') ++ text

/- The lines of text between the place and the marks. -/
def body
    (e : Excerpt) : List String :=
  let margin := String.ofList (List.replicate e.width ' ')
  match e.continued with
  | none => [numeral e.first.line ++ " | " ++ String.ofList e.shown]
  | some line =>
      [aligned e.width e.first.line ++ " | " ++ String.ofList e.shown] ++
        (if e.lastLine - e.first.line > 1 then [margin ++ " | ..."] else []) ++
        [aligned e.width e.lastLine ++ " | " ++ String.ofList line]

/- The excerpt with a message under it. -/
def render
    (e : Excerpt)
    (message : String) : String :=
  let margin := String.ofList (List.replicate e.width ' ')
  let place := numeral e.first.line ++ ":" ++ numeral e.first.column
  "\n".intercalate <|
    [margin ++ "--> " ++ place, margin ++ " |"] ++
      e.body ++
      [margin ++ " | " ++ String.ofList e.marks, margin ++ " |", margin ++ " = " ++ message]

end Excerpt

end MultiTape.Text
