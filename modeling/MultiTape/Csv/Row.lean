import MultiTape.Csv.Basic
import MultiTape.Text.Span

/-
  This file gives the fields of a cut their places in the text.

  Key definitions include:
    * `Field`
    * `Row`
    * `Record.locate`
    * `Cut.rows`
-/

namespace MultiTape.Csv

open MultiTape.Text (Span)

/- The text of a field and the stretch that was written for it. -/
structure Field where
  text : List Char
  span : Span
  deriving DecidableEq, Repr

/- A record of which the fields are located. -/
structure Row where
  first : Field
  rest : List Field
  deriving DecidableEq, Repr

namespace Row

/- All fields of a row. -/
def fields
    (r : Row) : List Field :=
  r.first :: r.rest

/- The number of fields. -/
def width
    (r : Row) : Nat :=
  r.rest.length + 1

/- The stretch from the first field to the last. -/
def span
    (r : Row) : Span :=
  ⟨r.first.span.start, (r.rest.getLastD r.first).span.stop⟩

/- No field of the row has a text. -/
def IsEmpty
    (r : Row) : Prop :=
  ∀ f ∈ r.fields, f.text = []

instance
    (r : Row) :
    Decidable r.IsEmpty :=
  inferInstanceAs (Decidable (∀ f ∈ r.fields, f.text = []))

/- The texts of the row that are not empty. -/
def names
    (r : Row) : List String :=
  ((r.fields.map Field.text).filter (· ≠ [])).map String.ofList

end Row

/- The field that begins at a position. -/
def RawField.locate
    (start : Nat)
    (f : RawField) : Field :=
  ⟨f.text, ⟨start, start + f.raw.length⟩⟩

/- The fields that begin with a comma at a position. -/
def locateFields : Nat → List RawField → List Field
  | _, [] => []
  | start, f :: fs =>
      f.locate (start + 1) :: locateFields (start + 1 + f.raw.length) fs

/- The row that begins at a position. -/
def Record.locate
    (start : Nat)
    (r : Record) : Row :=
  ⟨r.first.locate start, locateFields (start + r.first.raw.length) r.rest⟩

/- The rows that begin with a line end at a position. -/
def locateRecords : Nat → List (Newline × Record) → List Row
  | _, [] => []
  | start, (n, r) :: more =>
      r.locate (start + n.raw.length) ::
        locateRecords (start + n.raw.length + r.raw.length) more

/- The first row of a cut. -/
def Cut.firstRow
    (c : Cut) : Row :=
  c.first.locate 0

/- The rows of a cut after the first. -/
def Cut.moreRows
    (c : Cut) : List Row :=
  locateRecords c.first.raw.length c.rest

end MultiTape.Csv
