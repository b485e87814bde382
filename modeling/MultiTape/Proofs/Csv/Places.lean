import MultiTape.Proofs.Csv.Language

/-
  This file shows that rows stand where their records do: the
  place of a field is the stretch that its characters take in
  the text. So the rows up to a record are told by the
  characters of the records up to it and by the line ends
  between them.

  Key definitions include:
    * `Text.Span.after`
    * `Csv.Record.before`
    * `Csv.Cut.before`
    * `Csv.Cut.rows`
    * `Csv.Cut.SharesRecords`

  Main statements:
    * `Csv.Record.getElem?_fields_locate`
    * `Csv.Record.span_locate`
    * `Csv.Cut.getElem?_rows`
    * `Csv.Cut.SharesRecords.take_rows`
-/

namespace MultiTape

/- The stretch that characters take after others. -/
def Text.Span.after
    (before chars : List Char) : Text.Span :=
  ⟨before.length, before.length + chars.length⟩

/- The characters of a stretch are those that take it. -/
theorem Text.Span.slice_after
    (before chars rest : List Char) :
    (Text.Span.after before chars).slice
        (before ++ chars ++ rest) = chars := by
  simp [Text.Span.after, Text.Span.slice]

namespace Csv

------------------------------------------------------------
-- Fields In A Record
------------------------------------------------------------

/-
  A list is what is in front of an item, the item and the
  rest.
-/
theorem eq_take_append_cons_drop
    {α : Type}
    {items : List α}
    {i : Nat}
    {a : α}
    (hItem : items[i]? = some a) :
    items = items.take i ++ a :: items.drop (i + 1) := by
  rcases List.getElem?_eq_some_iff.mp hItem with
    ⟨hIndex, rfl⟩
  rw [← List.drop_eq_getElem_cons hIndex,
    List.take_append_drop]

/- The characters of a record in front of a field. -/
def Record.before
    (r : Record) : Nat → List Char
  | 0 => []
  | p + 1 =>
      r.first.raw ++
        (r.rest.take p).flatMap (fun f => ',' :: f.raw) ++
        [',']

/-
  A field stands after the fields before it and their commas.
-/
theorem getElem?_locateFields
    (start : Nat)
    (fields : List RawField)
    (p : Nat) :
    (locateFields start fields)[p]? =
      fields[p]?.map fun f =>
        f.locate
          (start +
            ((fields.take p).flatMap fun f =>
              ',' :: f.raw).length + 1) := by
  induction fields generalizing start p with
  | nil => rfl
  | cons g fields ih =>
      cases p with
      | zero => rfl
      | succ p =>
          rw [locateFields, List.getElem?_cons_succ, ih,
            List.getElem?_cons_succ, List.take_succ_cons,
            List.flatMap_cons, List.length_append,
            List.length_cons]
          congr 1
          funext f
          congr 1
          omega

/- A field stands in its row after what is in front of it. -/
theorem Record.getElem?_fields_locate
    (start : Nat)
    (r : Record)
    (p : Nat) :
    (r.locate start).fields[p]? =
      r.fields[p]?.map fun f =>
        f.locate (start + (r.before p).length) := by
  cases p with
  | zero => rfl
  | succ p =>
      simp only [Record.locate, Row.fields, Record.fields,
        List.getElem?_cons_succ, getElem?_locateFields,
        Record.before, List.length_append, List.length_cons,
        List.length_nil]
      congr 1
      funext f
      congr 1
      omega

/- The place of a field is that of its characters. -/
theorem RawField.span_locate
    (before front : List Char)
    (f : RawField) :
    (f.locate (before.length + front.length)).span =
      Text.Span.after (before ++ front) f.raw := by
  simp [RawField.locate, Text.Span.after]

/-
  A record is what is in front of a field, the field and more.
-/
theorem Record.exists_raw_eq
    {r : Record}
    {p : Nat}
    {f : RawField}
    (hField : r.fields[p]? = some f) :
    ∃ after, r.raw = r.before p ++ f.raw ++ after := by
  cases p with
  | zero =>
      cases hField
      exact ⟨_, rfl⟩
  | succ p =>
      have hSplit :=
        eq_take_append_cons_drop
          (show r.rest[p]? = some f from hField)
      refine
        ⟨(r.rest.drop (p + 1)).flatMap fun f => ',' :: f.raw,
          ?_⟩
      conv => lhs; rw [Record.raw, hSplit]
      simp [Record.before]

/- A row reaches from the beginning of its record to the end. -/
theorem stop_getLastD_locateFields
    (fields : List RawField)
    (f : Field) :
    ((locateFields f.span.stop fields).getLastD f).span.stop =
      f.span.stop +
        (fields.flatMap fun f => ',' :: f.raw).length := by
  induction fields generalizing f with
  | nil => rfl
  | cons g fields ih =>
      have hRest := ih (g.locate (f.span.stop + 1))
      simp only [RawField.locate] at hRest
      rw [locateFields, List.getLastD_cons, List.flatMap_cons,
        List.length_append, List.length_cons]
      simp only [RawField.locate]
      rw [hRest]
      omega

/-
  The place of a row is that of the characters of its record.
-/
theorem Record.span_locate
    (before : List Char)
    (r : Record) :
    (r.locate before.length).span =
      Text.Span.after before r.raw := by
  have hStop :=
    stop_getLastD_locateFields r.rest
      (r.first.locate before.length)
  unfold Row.span Record.locate Text.Span.after Record.raw
  rw [List.length_append, ← Nat.add_assoc]
  congr 1

------------------------------------------------------------
-- Records In A Text
------------------------------------------------------------

namespace Cut

/- All rows of a cut. -/
def rows
    (c : Cut) : List Row :=
  c.firstRow :: c.moreRows

/- The characters in front of a record, with its line end. -/
def before
    (c : Cut) : Nat → List Char
  | 0 => []
  | i + 1 =>
      c.first.raw ++
        (c.rest.take i).flatMap
          (fun q => q.1.raw ++ q.2.raw) ++
        c.rest[i]?.elim [] fun q => q.1.raw

end Cut

/-
  A row stands after the records before it and the line ends.
-/
theorem getElem?_locateRecords
    (start : Nat)
    (records : List (Newline × Record))
    (i : Nat) :
    (locateRecords start records)[i]? =
      records[i]?.map fun q =>
        q.2.locate
          (start +
            ((records.take i).flatMap fun q =>
              q.1.raw ++ q.2.raw).length + q.1.raw.length) := by
  induction records generalizing start i with
  | nil => rfl
  | cons q records ih =>
      cases i with
      | zero => rfl
      | succ i =>
          rw [locateRecords, List.getElem?_cons_succ, ih,
            List.getElem?_cons_succ, List.take_succ_cons,
            List.flatMap_cons, List.length_append,
            List.length_append]
          congr 1
          funext s
          congr 1
          omega

namespace Cut

/-
  A row stands in the text after what is in front of its
  record.
-/
theorem getElem?_rows
    (c : Cut)
    (i : Nat) :
    c.rows[i]? =
      c.records[i]?.map fun r =>
        r.locate (c.before i).length := by
  cases i with
  | zero => rfl
  | succ i =>
      simp only [rows, moreRows, records,
        List.getElem?_cons_succ, getElem?_locateRecords,
        List.getElem?_map, before, List.length_append]
      cases c.rest[i]? with
      | none => rfl
      | some q => rfl

/-
  A text is what is in front of a record, the record and more.
-/
theorem exists_raw_eq
    {c : Cut}
    {i : Nat}
    {r : Record}
    (hRecord : c.records[i]? = some r) :
    ∃ after, c.raw = c.before i ++ r.raw ++ after := by
  cases i with
  | zero =>
      cases hRecord
      exact ⟨_, rfl⟩
  | succ i =>
      rw [records, List.getElem?_cons_succ,
        List.getElem?_map] at hRecord
      rcases Option.map_eq_some_iff.mp hRecord with
        ⟨q, hItem, rfl⟩
      have hSplit := eq_take_append_cons_drop hItem
      refine
        ⟨(c.rest.drop (i + 1)).flatMap fun q =>
            q.1.raw ++ q.2.raw, ?_⟩
      conv => lhs; rw [raw, hSplit]
      simp [before, hItem]

------------------------------------------------------------
-- Texts With The Same Records In Front
------------------------------------------------------------

/-
  The first records have the same characters, and the same line
  ends stand between them.
-/
def SharesRecords
    (n : Nat)
    (c d : Cut) : Prop :=
  (c.records.take n).map Record.raw =
      (d.records.take n).map Record.raw ∧
    (c.rest.take (n - 1)).map Prod.fst =
      (d.rest.take (n - 1)).map Prod.fst

instance
    (n : Nat)
    (c d : Cut) :
    Decidable (c.SharesRecords n d) :=
  inferInstanceAs (Decidable (_ ∧ _))

end Cut

/- A record is read back from its own characters. -/
theorem Record.WellFormed.scanRecord_raw
    {r : Record}
    (hRecord : r.WellFormed) :
    (scanRecord r.raw).1 = r := by
  have hEnds : EndsRecord [] := by
    intro c hc
    cases hc
  have hScan := scanRecord_raw_append hRecord hEnds
  rw [List.append_nil] at hScan
  rw [hScan]

/- The rows up to a record are told by the records up to it. -/
theorem take_locateRecords
    (start n : Nat)
    (records : List (Newline × Record)) :
    (locateRecords start records).take n =
      locateRecords start (records.take n) := by
  induction records generalizing start n with
  | nil => simp [locateRecords]
  | cons q records ih =>
      cases n with
      | zero => rfl
      | succ n =>
          rw [locateRecords, List.take_succ_cons, ih]
          rfl

namespace Cut

/- Well formed records with the same characters are the same. -/
theorem SharesRecords.take_records
    {n : Nat}
    {c d : Cut}
    (hShares : c.SharesRecords n d)
    (hFirst : c.WellFormed)
    (hSecond : d.WellFormed) :
    c.records.take n = d.records.take n := by
  have hBack :
      ∀ cut : Cut, cut.WellFormed →
        ((cut.records.take n).map Record.raw).map
            (fun raw => (scanRecord raw).1) =
          cut.records.take n := by
    intro cut hCut
    apply map_map_eq_self
    intro r hMem
    exact (hCut r (List.mem_of_mem_take hMem)).scanRecord_raw
  rw [← hBack c hFirst, hShares.1, hBack d hSecond]

/- Then the rows are the same as well. -/
theorem SharesRecords.take_rows
    {n : Nat}
    {c d : Cut}
    (hShares : c.SharesRecords n d)
    (hFirst : c.WellFormed)
    (hSecond : d.WellFormed) :
    c.rows.take n = d.rows.take n := by
  cases n with
  | zero => rfl
  | succ n =>
      have hRecords := hShares.take_records hFirst hSecond
      rw [records, records, List.take_succ_cons,
        List.take_succ_cons] at hRecords
      rcases List.cons_eq_cons.mp hRecords with
        ⟨hHead, hTail⟩
      have hRest : c.rest.take n = d.rest.take n := by
        have hEnds :
            (c.rest.take n).map Prod.fst =
              (d.rest.take n).map Prod.fst :=
          hShares.2
        rw [← List.map_take, ← List.map_take] at hTail
        rw [← List.zip_unzip (c.rest.take n),
          ← List.zip_unzip (d.rest.take n),
          List.unzip_eq_map, List.unzip_eq_map, hEnds, hTail]
      rw [rows, rows, List.take_succ_cons, List.take_succ_cons,
        moreRows, moreRows, take_locateRecords,
        take_locateRecords, hRest, firstRow, firstRow, hHead]

end Cut

end Csv

end MultiTape
