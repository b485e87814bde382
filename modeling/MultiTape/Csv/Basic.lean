import MultiTape.Text.Whitespace

/-
  This file defines comma separated text without loss: fields
  with the padding and quotes that were written around them,
  records of fields, and the line ends between records.

  Key definitions include:
    * `encodeQuotes`
    * `RawField`
    * `RawField.raw`
    * `RawField.text`
    * `Record`
    * `Newline`
    * `Cut`
    * `Cut.raw`
    * `Cut.WellFormed`
-/

namespace MultiTape.Csv

------------------------------------------------------------
-- Characters
------------------------------------------------------------

/- Spaces and tabs may stand around a quoted field. -/
def isPadding
    (c : Char) : Bool :=
  c = ' ' || c = '\t'

/- The characters of a field without quotes. -/
def isBare
    (c : Char) : Bool :=
  !(c = ',' || c = '"' || c = '\r' || c = '\n')

------------------------------------------------------------
-- Fields
------------------------------------------------------------

/- Write every quote twice. -/
def encodeQuotes : List Char → List Char
  | [] => []
  | c :: rest =>
      if c = '"' then
        '"' :: '"' :: encodeQuotes rest
      else
        c :: encodeQuotes rest

/- A field as it was written. -/
inductive RawField where
  /- A text between quotes, with the padding on both sides. -/
  | quoted (before body after : List Char)
  /- Everything up to the next comma, quote or line end. -/
  | bare (chars : List Char)
  deriving DecidableEq, Repr

namespace RawField

/- The characters of a field. -/
def raw : RawField → List Char
  | quoted before body after =>
      before ++ '"' :: encodeQuotes body ++ '"' :: after
  | bare chars => chars

/-
  The text a field stands for: what was quoted, or what was
  written without the white space around it.
-/
def text : RawField → List Char
  | quoted _ body _ => body
  | bare chars => Text.trim chars

/- Only padding stands around quotes, and a bare field ends before a separator. -/
def WellFormed : RawField → Prop
  | quoted before _ after =>
      (∀ c ∈ before, isPadding c = true) ∧ (∀ c ∈ after, isPadding c = true)
  | bare chars => ∀ c ∈ chars, isBare c = true

instance
    (f : RawField) :
    Decidable f.WellFormed :=
  match f with
  | quoted before _ after =>
      @instDecidableAnd _ _
        (List.decidableBAll (isPadding · = true) before)
        (List.decidableBAll (isPadding · = true) after)
  | bare chars => List.decidableBAll (isBare · = true) chars

end RawField

------------------------------------------------------------
-- Records
------------------------------------------------------------

/- A record has at least one field. -/
structure Record where
  first : RawField
  rest : List RawField
  deriving DecidableEq, Repr

namespace Record

/- All fields of a record. -/
def fields
    (r : Record) : List RawField :=
  r.first :: r.rest

/- The characters of a record, with its commas. -/
def raw
    (r : Record) : List Char :=
  r.first.raw ++ r.rest.flatMap fun f => ',' :: f.raw

/- The last field of a record. -/
def last
    (r : Record) : RawField :=
  r.rest.getLastD r.first

/- Every field is well formed. -/
def WellFormed
    (r : Record) : Prop :=
  ∀ f ∈ r.fields, f.WellFormed

instance
    (r : Record) :
    Decidable r.WellFormed :=
  inferInstanceAs (Decidable (∀ f ∈ r.fields, f.WellFormed))

end Record

------------------------------------------------------------
-- Line ends
------------------------------------------------------------

/- What stands between two records. -/
inductive Newline where
  | lf
  | crlf
  | cr
  deriving DecidableEq, Repr

/- The characters of a line end. -/
def Newline.raw : Newline → List Char
  | lf => ['\n']
  | crlf => ['\r', '\n']
  | cr => ['\r']

------------------------------------------------------------
-- Cuts
------------------------------------------------------------

/- A text cut into records, with the line end before each but the first. -/
structure Cut where
  first : Record
  rest : List (Newline × Record)
  deriving DecidableEq, Repr

namespace Cut

/- The records of a cut. -/
def records
    (c : Cut) : List Record :=
  c.first :: c.rest.map Prod.snd

/- The characters of a cut. -/
def raw
    (c : Cut) : List Char :=
  c.first.raw ++ c.rest.flatMap fun p => p.1.raw ++ p.2.raw

/- The last record of a cut. -/
def last
    (c : Cut) : Record :=
  (c.rest.map Prod.snd).getLastD c.first

/- Every record is well formed. -/
def WellFormed
    (c : Cut) : Prop :=
  ∀ r ∈ c.records, r.WellFormed

instance
    (c : Cut) :
    Decidable c.WellFormed :=
  inferInstanceAs (Decidable (∀ r ∈ c.records, r.WellFormed))

end Cut

end MultiTape.Csv
