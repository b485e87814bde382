import MultiTape.Csv.Scan
import Mathlib.Data.List.Chain
import Mathlib.Data.List.TakeWhile

/-
  This file shows that the parts of a text are read back from
  the characters written for them, whatever follows, as long as
  it cannot be taken for more of the same part.

  Key definitions include:
    * `EndsField`
    * `EndsRecord`
    * `Unsplit`

  Main statements:
    * `scanField_raw_append`
    * `scanRecord_raw_append`
    * `scan_raw`
-/

namespace MultiTape.Csv

------------------------------------------------------------
-- What May Follow
------------------------------------------------------------

/- The text is over, or a comma or a line end comes next. -/
def EndsField
    (rest : List Char) : Prop :=
  ∀ c ∈ rest.head?, c = ',' ∨ c = '\r' ∨ c = '\n'

/- The text is over, or a line end comes next. -/
def EndsRecord
    (rest : List Char) : Prop :=
  ∀ c ∈ rest.head?, c = '\r' ∨ c = '\n'

/- Where a record ends, a field ends. -/
theorem EndsRecord.endsField
    {rest : List Char}
    (hEnds : EndsRecord rest) :
    EndsField rest := by
  intro c hc
  exact Or.inr (hEnds c hc)

/- Characters of a class are taken up to the first of another. -/
theorem takeWhile_append_of_head?
    {p : Char → Bool}
    {cs rest : List Char}
    (hAll : ∀ c ∈ cs, p c = true)
    (hRest : ∀ c ∈ rest.head?, p c = false) :
    (cs ++ rest).takeWhile p = cs := by
  rw [List.takeWhile_append_of_pos hAll]
  cases rest with
  | nil => simp
  | cons c rest => simp [hRest c rfl]

/- Nothing is dropped in front of a character of another class. -/
theorem dropWhile_of_head?
    {p : Char → Bool}
    {rest : List Char}
    (hRest : ∀ c ∈ rest.head?, p c = false) :
    rest.dropWhile p = rest := by
  cases rest with
  | nil => simp
  | cons c rest => simp [hRest c rfl]

/- What is left begins with the first character of another class. -/
theorem dropWhile_append_of_head?
    {p : Char → Bool}
    {cs rest : List Char}
    (hAll : ∀ c ∈ cs, p c = true)
    (hRest : ∀ c ∈ rest.head?, p c = false) :
    (cs ++ rest).dropWhile p = rest := by
  rw [List.dropWhile_append_of_pos hAll]
  exact dropWhile_of_head? hRest

/- No field goes on over its end. -/
theorem EndsField.not_isBare
    {rest : List Char}
    (hEnds : EndsField rest) :
    ∀ c ∈ rest.head?, isBare c = false := by
  intro c hc
  rcases hEnds c hc with rfl | rfl | rfl <;> rfl

/- No padding goes on over the end of a field. -/
theorem EndsField.not_isPadding
    {rest : List Char}
    (hEnds : EndsField rest) :
    ∀ c ∈ rest.head?, isPadding c = false := by
  intro c hc
  rcases hEnds c hc with rfl | rfl | rfl <;> rfl

/- No quote stands at the end of a field. -/
theorem EndsField.head?_ne_quote
    {rest : List Char}
    (hEnds : EndsField rest) :
    rest.head? ≠ some '"' := by
  intro hHead
  rcases hEnds '"' hHead with h | h | h <;> cases h

------------------------------------------------------------
-- Fields
------------------------------------------------------------

/- A body is read back up to its closing quote. -/
theorem scanBody_encodeQuotes_append
    {rest : List Char}
    (hRest : rest.head? ≠ some '"')
    (body : List Char) :
    scanBody (encodeQuotes body ++ '"' :: rest) =
      some (body, rest) := by
  induction body with
  | nil =>
      cases rest with
      | nil => rfl
      | cons c rest =>
          have hNe : c ≠ '"' := by
            intro hEq
            exact hRest (congrArg some hEq)
          simp [encodeQuotes, scanBody, hNe]
  | cons c body ih =>
      by_cases hc : c = '"'
      · subst hc
        simp [encodeQuotes, scanBody, ih]
      · simp [encodeQuotes, scanBody, hc, ih]

/- A quoted field is read back. -/
theorem scanQuoted_quoted_append
    {before body after rest : List Char}
    (hBefore : ∀ c ∈ before, isPadding c = true)
    (hAfter : ∀ c ∈ after, isPadding c = true)
    (hRest : EndsField rest) :
    scanQuoted
        ((RawField.quoted before body after).raw ++ rest) =
      some (.quoted before body after, rest) := by
  have hRaw :
      (RawField.quoted before body after).raw ++ rest =
        before ++
          '"' :: (encodeQuotes body ++
            '"' :: (after ++ rest)) := by
    simp [RawField.raw]
  have hOpen :
      ∀ tail : List Char, ∀ c ∈ ('"' :: tail).head?,
        isPadding c = false := by
    intro tail c hc
    cases hc
    rfl
  have hClosed : (after ++ rest).head? ≠ some '"' := by
    cases after with
    | nil => exact hRest.head?_ne_quote
    | cons c after =>
        intro hQuote
        have hPadding := hAfter c List.mem_cons_self
        cases hQuote
        cases hPadding
  rw [hRaw]
  unfold scanQuoted
  rw [dropWhile_append_of_head? hBefore (hOpen _),
    takeWhile_append_of_head? hBefore (hOpen _)]
  simp only [scanBody_encodeQuotes_append hClosed,
    Option.map_some,
    takeWhile_append_of_head? hAfter hRest.not_isPadding,
    dropWhile_append_of_head? hAfter hRest.not_isPadding]

/- Nothing is quoted in a bare field. -/
theorem scanQuoted_bare_append
    {chars rest : List Char}
    (hBare : ∀ c ∈ chars, isBare c = true)
    (hRest : EndsField rest) :
    scanQuoted (chars ++ rest) = none := by
  have hHead :
      ((chars ++ rest).dropWhile isPadding).head? ≠
        some '"' := by
    intro hQuote
    cases hDrop : chars.dropWhile isPadding with
    | nil =>
        have hStop :=
          dropWhile_of_head? hRest.not_isPadding
        rw [List.dropWhile_append, hDrop] at hQuote
        simp only [List.isEmpty_nil, if_true, hStop] at hQuote
        exact hRest.head?_ne_quote hQuote
    | cons c more =>
        rw [List.dropWhile_append, hDrop] at hQuote
        have hMem : c ∈ chars := by
          apply (List.dropWhile_sublist isPadding).mem
          rw [hDrop]
          exact List.mem_cons_self
        have hChar := hBare c hMem
        cases hQuote
        cases hChar
  unfold scanQuoted
  split
  · next tail hDrop =>
      rw [hDrop] at hHead
      exact absurd rfl hHead
  · rfl

/- A field is read back from its characters. -/
theorem scanField_raw_append
    {f : RawField}
    {rest : List Char}
    (hField : f.WellFormed)
    (hRest : EndsField rest) :
    scanField (f.raw ++ rest) = (f, rest) := by
  unfold scanField
  cases f with
  | quoted before body after =>
      rcases hField with ⟨hBefore, hAfter⟩
      rw [scanQuoted_quoted_append hBefore hAfter hRest]
      rfl
  | bare chars =>
      have hNone :
          scanQuoted
              ((RawField.bare chars).raw ++ rest) =
            none := by
        exact scanQuoted_bare_append hField hRest
      rw [hNone]
      unfold scanBare RawField.raw
      rw [takeWhile_append_of_head? hField hRest.not_isBare,
        dropWhile_append_of_head? hField hRest.not_isBare]
      rfl

------------------------------------------------------------
-- Records
------------------------------------------------------------

/- A field ends where fields with commas in front begin. -/
theorem endsField_flatMap_append
    {rest : List Char}
    (hRest : EndsRecord rest)
    (fields : List RawField) :
    EndsField
      ((fields.flatMap fun f => ',' :: f.raw) ++ rest) := by
  cases fields with
  | nil => exact hRest.endsField
  | cons f fields =>
      intro c hc
      cases hc
      exact Or.inl rfl

/- Fields with a comma in front of each are read back. -/
theorem scanFields_raw_append
    {fields : List RawField}
    {rest : List Char}
    (hFields : ∀ f ∈ fields, f.WellFormed)
    (hRest : EndsRecord rest) :
    scanFields
        ((fields.flatMap fun f => ',' :: f.raw) ++ rest) =
      (fields, rest) := by
  induction fields with
  | nil =>
      rw [List.flatMap_nil, List.nil_append]
      unfold scanFields
      split
      · next tail =>
          rcases hRest ',' rfl with h | h <;> cases h
      · rfl
  | cons f fields ih =>
      have hFirst :=
        scanField_raw_append
          (hFields f List.mem_cons_self)
          (endsField_flatMap_append hRest fields)
      have hMore := ih fun g hg =>
        hFields g (List.mem_cons_of_mem f hg)
      rw [List.flatMap_cons, List.cons_append,
        List.cons_append, List.append_assoc]
      unfold scanFields
      simp only [hFirst, hMore]

/- A record is read back from its characters. -/
theorem scanRecord_raw_append
    {r : Record}
    {rest : List Char}
    (hRecord : r.WellFormed)
    (hRest : EndsRecord rest) :
    scanRecord (r.raw ++ rest) = (r, rest) := by
  have hRestFields : ∀ f ∈ r.rest, f.WellFormed := by
    intro f hf
    exact hRecord f (List.mem_cons_of_mem r.first hf)
  have hMore := scanFields_raw_append hRestFields hRest
  have hFirst :=
    scanField_raw_append
      (hRecord r.first List.mem_cons_self)
      (endsField_flatMap_append hRest r.rest)
  unfold scanRecord Record.raw
  rw [List.append_assoc]
  simp only [hFirst, hMore]

/- No field begins with a line feed. -/
theorem RawField.WellFormed.head?_raw_ne
    {f : RawField}
    (hField : f.WellFormed) :
    f.raw.head? ≠ some '\n' := by
  intro hHead
  cases f with
  | quoted before body after =>
      rcases hField with ⟨hBefore, hAfter⟩
      cases before with
      | nil => cases hHead
      | cons c before =>
          have hPadding := hBefore c List.mem_cons_self
          cases hHead
          cases hPadding
  | bare chars =>
      have hBare :=
        hField '\n' (List.mem_of_mem_head? hHead)
      cases hBare

/- No record begins with a line feed. -/
theorem Record.WellFormed.head?_raw_ne
    {r : Record}
    (hRecord : r.WellFormed) :
    r.raw.head? ≠ some '\n' := by
  have hFirst :=
    (hRecord r.first List.mem_cons_self).head?_raw_ne
  unfold Record.raw
  cases hRaw : r.first.raw with
  | nil =>
      cases r.rest with
      | nil => simp
      | cons f fields => simp
  | cons c cs =>
      rw [hRaw] at hFirst
      exact hFirst

------------------------------------------------------------
-- Cuts
------------------------------------------------------------

/- The characters of records with a line end in front of each. -/
def rawRecords
    (records : List (Newline × Record)) : List Char :=
  records.flatMap fun p => p.1.raw ++ p.2.raw

/- A record ends where records with line ends in front begin. -/
theorem endsRecord_rawRecords
    (records : List (Newline × Record)) :
    EndsRecord (rawRecords records) := by
  cases records with
  | nil =>
      intro c hc
      cases hc
  | cons p records =>
      rcases p with ⟨n, r⟩
      intro c hc
      cases n with
      | lf =>
          cases hc
          exact Or.inr rfl
      | crlf =>
          cases hc
          exact Or.inl rfl
      | cr =>
          cases hc
          exact Or.inl rfl

/- A line end is read back, if it is not the half of one. -/
theorem scanNewline_raw_append
    {n : Newline}
    {rest : List Char}
    (hWhole : n = .cr → rest.head? ≠ some '\n') :
    scanNewline (n.raw ++ rest) = some (n, rest) := by
  cases n with
  | lf => rfl
  | crlf => rfl
  | cr =>
      cases rest with
      | nil => rfl
      | cons c rest =>
          have hNe : c ≠ '\n' := by
            intro hEq
            exact hWhole rfl (congrArg some hEq)
          simp [Newline.raw, scanNewline, hNe]

/-
  No two line ends come together as one: an empty record does
  not stand between a carriage return and a line feed.
-/
def Unsplit
    (records : List (Newline × Record)) : Prop :=
  records.IsChain fun p q =>
    p.1 = .cr → p.2.raw = [] → q.1 ≠ .lf

/- Line ends of one kind are not halves of others. -/
theorem unsplit_map_mk
    (n : Newline)
    (records : List Record) :
    Unsplit (records.map fun r => (n, r)) := by
  unfold Unsplit
  rw [List.isChain_map]
  apply List.Pairwise.isChain
  apply List.pairwise_of_forall
  intro r q hCr hRaw hLf
  have hKinds : Newline.cr = Newline.lf := by
    exact hCr.symm.trans hLf
  cases hKinds

/- No line feed comes right after a carriage return. -/
theorem Unsplit.head?_raw_append_ne
    {r : Record}
    {records : List (Newline × Record)}
    (hUnsplit : Unsplit ((.cr, r) :: records))
    (hRecord : r.WellFormed) :
    (r.raw ++ rawRecords records).head? ≠ some '\n' := by
  have hRaw := hRecord.head?_raw_ne
  cases hChars : r.raw with
  | cons c cs =>
      rw [hChars] at hRaw
      exact hRaw
  | nil =>
      cases records with
      | nil => simp [rawRecords]
      | cons q records =>
          rcases q with ⟨n, q⟩
          have hNext : n ≠ .lf := by
            exact (List.isChain_cons_cons.mp hUnsplit).1
              rfl hChars
          cases n with
          | lf => exact absurd rfl hNext
          | crlf => simp [rawRecords, Newline.raw]
          | cr => simp [rawRecords, Newline.raw]

/- Records with a line end in front of each are read back. -/
theorem scanRecords_rawRecords
    {records : List (Newline × Record)}
    (hRecords : ∀ p ∈ records, p.2.WellFormed)
    (hUnsplit : Unsplit records) :
    scanRecords (rawRecords records) = (records, []) := by
  induction records with
  | nil =>
      unfold scanRecords
      rfl
  | cons p records ih =>
      rcases p with ⟨n, r⟩
      have hRecord : r.WellFormed := by
        exact hRecords (n, r) List.mem_cons_self
      have hWhole :
          n = .cr →
            (r.raw ++ rawRecords records).head? ≠
              some '\n' := by
        intro hCr
        subst hCr
        exact hUnsplit.head?_raw_append_ne hRecord
      have hMore :
          scanRecords (rawRecords records) =
            (records, []) := by
        apply ih
        · intro q hq
          exact hRecords q (List.mem_cons_of_mem _ hq)
        · exact hUnsplit.tail
      have hNewline := scanNewline_raw_append hWhole
      have hScan :=
        scanRecord_raw_append hRecord
          (endsRecord_rawRecords records)
      have hRaw :
          rawRecords ((n, r) :: records) =
            n.raw ++ (r.raw ++ rawRecords records) := by
        simp [rawRecords]
      rw [hRaw]
      unfold scanRecords
      split
      · next newline rest hRead =>
          rw [hNewline] at hRead
          cases hRead
          simp only [hScan, hMore]
      · next hRead =>
          rw [hNewline] at hRead
          cases hRead

/- A cut of a text is found again from its characters. -/
theorem scan_raw
    {c : Cut}
    (hCut : c.WellFormed)
    (hUnsplit : Unsplit c.rest) :
    scan c.raw = (c, []) := by
  have hFirst :=
    scanRecord_raw_append
      (hCut c.first List.mem_cons_self)
      (endsRecord_rawRecords c.rest)
  have hMore :
      scanRecords (rawRecords c.rest) = (c.rest, []) := by
    apply scanRecords_rawRecords _ hUnsplit
    intro p hp
    apply hCut
    exact List.mem_cons_of_mem _
      (List.mem_map_of_mem hp)
  have hRaw : c.raw = c.first.raw ++ rawRecords c.rest := by
    rfl
  rw [hRaw]
  unfold scan
  simp only [hFirst, hMore]

end MultiTape.Csv
