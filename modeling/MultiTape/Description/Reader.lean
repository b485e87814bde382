import MultiTape.Csv.Scan
import MultiTape.Csv.Row
import MultiTape.Text.Numeral
import MultiTape.Description.Basic
import MultiTape.Description.Fault

/-
  This file reads a description from comma separated text: five
  records for name and tape count, input, states, start state
  and accepting states, then one record for every rule.

  Key definitions include:
    * `Description.readHeader`
    * `Description.readRule`
    * `Description.ofRows`
    * `Description.read`
-/

namespace MultiTape.Description

open MultiTape.Csv (Field Row Cut RawField)

------------------------------------------------------------
-- Fields
------------------------------------------------------------

/- A fault at a field. -/
def faultAt
    {α : Type}
    (f : Field)
    (p : Problem) : Except Fault α :=
  .error (.unsuitable f.span p)

/- A field that holds a single symbol. -/
def readSymbol
    (f : Field) : Except Fault Symbol :=
  match f.text with
  | [c] => .ok c
  | _ => faultAt f (.invalidSymbol f.text)

/- A field that holds the code of a movement. -/
def readMove
    (f : Field) : Except Fault Move :=
  match Move.ofCode? f.text with
  | some m => .ok m
  | none => faultAt f (.invalidMove f.text)

/- A field that holds the number of tapes. -/
def readTapes
    (f : Field) : Except Fault Nat :=
  match Text.count? f.text with
  | none => faultAt f (.invalidTapeCount f.text)
  | some n =>
      if n = 0 then
        faultAt f .noTapes
      else if n > maxTapes then
        faultAt f .tooManyTapes
      else
        .ok n

------------------------------------------------------------
-- Records
------------------------------------------------------------

/- The number of tapes in the first record; further fields are ignored. -/
def readHeader
    (r : Row) : Except Fault Nat :=
  match r.rest with
  | [] => .error (.unsuitable r.span .missingTapeCount)
  | f :: _ => readTapes f

/- The start state, which is not empty. -/
def readStart
    (r : Row) : Except Fault State :=
  if r.first.text = [] then
    .error (.unsuitable r.span .missingStart)
  else
    .ok (String.ofList r.first.text)

/-
  A rule: the state, one symbol to read for every tape, the next
  state, one symbol to write and one movement for every tape.
-/
def readRule
    (tapes : Nat)
    (r : Row) : Except Fault Rule :=
  let expected := 3 * tapes + 2
  let state := String.ofList r.first.text
  match r.rest.drop tapes with
  | [] => .error (.fieldCount state r.width expected)
  | next :: after =>
      if r.width = expected then do
        let read ← (r.rest.take tapes).mapM readSymbol
        let write ← (after.take tapes).mapM readSymbol
        let moves ← (after.drop tapes).mapM readMove
        return ⟨state, read, String.ofList next.text, write, moves⟩
      else
        .error (.fieldCount state r.width expected)

/- The next record, which has to be there. -/
def takeRow
    (record : HeaderRecord) : List Row → Except Fault (Row × List Row)
  | [] => .error (.missingRecord record)
  | r :: rows => .ok (r, rows)

/-
  The description that the rows of a text give. Rows without any
  text are passed over among the rules.
-/
def ofRows
    (header : Row)
    (rows : List Row) : Except Fault Description := do
  let tapes ← readHeader header
  let (input, rows) ← takeRow .input rows
  let (states, rows) ← takeRow .states rows
  let (startRow, rows) ← takeRow .start rows
  let start ← readStart startRow
  let (accept, rows) ← takeRow .accept rows
  let rules ← (rows.filter fun r => decide (¬ r.IsEmpty)).mapM (readRule tapes)
  return {
    name := String.ofList header.first.text
    tapes := tapes
    input := input.first.text
    states := states.names
    start := start
    accept := accept.names
    mode := .overwrite
    rules := rules }

------------------------------------------------------------
-- Texts
------------------------------------------------------------

/- A field that was tried as a quoted one up to its end. -/
def IsPaddingOnly : RawField → Prop
  | .quoted _ _ _ => False
  | .bare chars => ∀ c ∈ chars, Csv.isPadding c = true

instance
    (f : RawField) :
    Decidable (IsPaddingOnly f) :=
  match f with
  | .quoted _ _ _ => inferInstanceAs (Decidable False)
  | .bare chars => List.decidableBAll (Csv.isPadding · = true) chars

/- What could have followed the part of a text that was read. -/
def expectation
    (index : Nat)
    (cut : Cut) : Expectation :=
  if index = 0 then
    .description
  else if IsPaddingOnly cut.last.last then
    .endOrQuoted
  else
    .endOfText

/- The description that a text gives. -/
def read
    (text : List Char) : Except Fault Description :=
  let (cut, unread) := Csv.scan text
  if unread = [] then
    ofRows cut.firstRow cut.moreRows
  else
    let index := text.length - unread.length
    .error (.ungrammatical index (expectation index cut))

end MultiTape.Description
