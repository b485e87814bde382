import MultiTape.Proofs.Description.Faults

/-
  This file shows that the fault that is reported for a text is
  the earliest one: that of the first record that does not pass
  its check, at the place where the record or the field stands
  in the text. What comes after that record makes no difference.

  Key definitions include:
    * `Description.Passes`
    * `Description.countProblem?`

  Main statements:
    * `Description.passes_of_rowFault?_eq_none`
    * `Description.not_passes_of_rowFault?_eq_some`
    * `Description.exists_of_readRule_locate_eq_error`
    * `Description.parse_reports_the_earliest_fault`
-/

namespace MultiTape

open MultiTape.Csv (Field Row Cut Record RawField)
open MultiTape.Text (Span)

namespace Description

------------------------------------------------------------
-- Checks
------------------------------------------------------------

/-
  The texts of the record at an index, counted from one, pass
  the checks for a number of tapes. The first record gives that
  number, the fourth names the start state, and every record
  after the fifth is without any text or a rule. There is no
  check on the others.
-/
structure Passes
    (tapes i : Nat)
    (texts : List (List Char)) : Prop where
  header :
    i = 1 →
      ∃ name count more,
        texts = name :: count :: more ∧
          Text.count? count = some tapes ∧
          1 ≤ tapes ∧ tapes ≤ maxTapes
  start :
    i = 4 → texts.head? ≠ some []
  rule :
    6 ≤ i →
      (∀ text ∈ texts, text = []) ∨
        ∃ r : Rule, texts = r.texts ∧ r.Fits tapes

/- A row without a fault passes. -/
theorem passes_of_rowFault?_eq_none
    {tapes i : Nat}
    {row : Row}
    (hHeader : i = 1 → readHeader row = .ok tapes)
    (hNone : rowFault? tapes i row = none) :
    Passes tapes i row.texts := by
  refine ⟨?_, ?_, ?_⟩
  · intro hFirst
    exact readHeader_eq_ok_iff.mp (hHeader hFirst)
  · rintro rfl hEmpty
    have hText : row.first.text = [] := Option.some.inj hEmpty
    rcases fault?_eq_none_iff.mp hNone with ⟨start, hStart⟩
    unfold readStart at hStart
    rw [if_pos hText] at hStart
    cases hStart
  · intro hRule
    rw [rowFault?_of_le hRule] at hNone
    split at hNone
    · next hEmpty => exact Or.inl (Row.isEmpty_iff.mp hEmpty)
    · rcases fault?_eq_none_iff.mp hNone with ⟨r, hRead⟩
      exact Or.inr ⟨r, readRule_eq_ok_iff.mp hRead⟩

/- A row with a fault does not pass. -/
theorem not_passes_of_rowFault?_eq_some
    {tapes i : Nat}
    {row : Row}
    {fault : Fault}
    (hSome : rowFault? tapes i row = some fault) :
    ¬ Passes tapes i row.texts := by
  intro hPasses
  rcases index_of_rowFault?_eq_some hSome with
    rfl | rfl | hRule
  · have hHeader :=
      readHeader_eq_ok_iff.mpr (hPasses.header rfl)
    have hFault := fault?_eq_some_iff.mp hSome
    rw [hHeader] at hFault
    cases hFault
  · have hFault : readStart row = .error fault :=
      fault?_eq_some_iff.mp hSome
    have hText : row.first.text ≠ [] := by
      intro hEmpty
      exact hPasses.start rfl (congrArg some hEmpty)
    unfold readStart at hFault
    rw [if_neg hText] at hFault
    cases hFault
  · rw [rowFault?_of_le hRule] at hSome
    split at hSome
    · cases hSome
    · next hText =>
        rcases hPasses.rule hRule with hEmpty | ⟨r, hRead⟩
        · exact hText (Row.isEmpty_iff.mpr hEmpty)
        · have hFault := fault?_eq_some_iff.mp hSome
          rw [readRule_eq_ok_iff.mpr hRead] at hFault
          cases hFault

------------------------------------------------------------
-- Faults And Their Places
------------------------------------------------------------

/- What is wrong with a text as the number of tapes. -/
def countProblem?
    (text : List Char) : Option Problem :=
  match Text.count? text with
  | none => some (.invalidTapeCount text)
  | some n =>
      if n = 0 then
        some .noTapes
      else if n > maxTapes then
        some .tooManyTapes
      else
        none

/- The fault of the number of tapes. -/
theorem fault?_readTapes
    (f : Field) :
    fault? (readTapes f) =
      (countProblem? f.text).map (.unsuitable f.span) := by
  unfold readTapes countProblem?
  cases Text.count? f.text with
  | none => rfl
  | some n =>
      simp only
      split
      · rfl
      · split
        · rfl
        · rfl

/- The fault of the first record, and where it stands. -/
theorem exists_of_readHeader_locate_eq_error
    {before : List Char}
    {r : Record}
    {fault : Fault}
    (hError :
      readHeader (r.locate before.length) = .error fault) :
    (r.rest = [] ∧
      fault =
        .unsuitable (Span.after before r.raw)
          .missingTapeCount) ∨
      ∃ f problem,
        r.fields[1]? = some f ∧
          countProblem? f.text = some problem ∧
          fault =
            .unsuitable
              (Span.after (before ++ r.before 1) f.raw)
              problem := by
  cases hRest : r.rest with
  | nil =>
      have hNone : (r.locate before.length).rest = [] := by
        rw [Record.locate, hRest]
        rfl
      unfold readHeader at hError
      rw [hNone, Record.span_locate] at hError
      exact Or.inl ⟨rfl, (Except.error.inj hError).symm⟩
  | cons f more =>
      have hField : r.fields[1]? = some f := by
        rw [Record.fields, hRest]
        rfl
      have hCount :
          (r.locate before.length).rest.head? =
            some
              (f.locate
                (before.length + (r.before 1).length)) := by
        have hAt :=
          Record.getElem?_fields_locate before.length r 1
        rw [hField] at hAt
        rw [List.head?_eq_getElem?]
        exact hAt
      rcases List.head?_eq_some_iff.mp hCount with
        ⟨others, hOthers⟩
      unfold readHeader at hError
      rw [hOthers] at hError
      rw [← fault?_eq_some_iff, fault?_readTapes] at hError
      rcases Option.map_eq_some_iff.mp hError with
        ⟨problem, hProblem, rfl⟩
      rw [RawField.span_locate]
      exact Or.inr ⟨f, problem, hField, hProblem, rfl⟩

/- The fault of the start state, and where it stands. -/
theorem eq_of_readStart_locate_eq_error
    {before : List Char}
    {r : Record}
    {fault : Fault}
    (hError :
      readStart (r.locate before.length) = .error fault) :
    fault =
      .unsuitable (Span.after before r.raw) .missingStart := by
  unfold readStart at hError
  rw [Record.span_locate] at hError
  split at hError
  · exact (Except.error.inj hError).symm
  · cases hError

/- The fault of a rule, and where it stands. -/
theorem exists_of_readRule_locate_eq_error
    {tapes : Nat}
    {before : List Char}
    {r : Record}
    {fault : Fault}
    (hError :
      readRule tapes (r.locate before.length) = .error fault) :
    (r.fields.length ≠ 3 * tapes + 2 ∧
      fault =
        .fieldCount (String.ofList r.first.text)
          r.fields.length (3 * tapes + 2)) ∨
      r.fields.length = 3 * tapes + 2 ∧
        ∃ p f problem,
          r.fields[p]? = some f ∧
            fieldProblem? tapes p f.text = some problem ∧
            (∀ (q : Nat) (g : RawField),
              q < p → r.fields[q]? = some g →
                fieldProblem? tapes q g.text = none) ∧
            fault =
              .unsuitable
                (Span.after (before ++ r.before p) f.raw)
                problem := by
  have hWidth :
      (r.locate before.length).width = r.fields.length := by
    rw [← Row.length_texts, Record.texts_locate,
      List.length_map]
  by_cases hCount : r.fields.length = 3 * tapes + 2
  · right
    refine ⟨hCount, ?_⟩
    rw [← fault?_eq_some_iff,
      fault?_readRule (hWidth.trans hCount)] at hError
    rcases findSome?_eq_some_iff_getElem?.mp hError with
      ⟨p, ⟨role, field⟩, hBoth, hFault, hEarlier⟩
    rcases List.getElem?_zip_eq_some.mp hBoth with
      ⟨hRole, hField⟩
    rw [Record.getElem?_fields_locate] at hField
    rcases Option.map_eq_some_iff.mp hField with
      ⟨f, hRaw, rfl⟩
    rcases Option.map_eq_some_iff.mp hFault with
      ⟨problem, hProblem, rfl⟩
    rw [RawField.span_locate]
    refine ⟨p, f, problem, hRaw, ?_, ?_, rfl⟩
    · rw [fieldProblem?, hRole]
      exact hProblem
    · intro q g hLt hOther
      rw [fieldProblem?]
      cases hKind : (roles tapes)[q]? with
      | none => rfl
      | some kind =>
          have hLocated :
              (r.locate before.length).fields[q]? =
                some
                  (g.locate
                    (before.length + (r.before q).length)) := by
            rw [Record.getElem?_fields_locate, hOther]
            rfl
          have hNone :=
            hEarlier q (kind, _) hLt
              (List.getElem?_zip_eq_some.mpr
                ⟨hKind, hLocated⟩)
          exact Option.map_eq_none_iff.mp hNone
  · left
    have hOther :
        (r.locate before.length).width ≠ 3 * tapes + 2 :=
      hWidth ▸ hCount
    rw [readRule_of_width_ne hOther, hWidth] at hError
    exact ⟨hCount, (Except.error.inj hError).symm⟩

------------------------------------------------------------
-- The Earliest Fault
------------------------------------------------------------

/- A text that can be cut is read from the rows of the cut. -/
theorem parse_of_ofText?_eq_some
    {text : List Char}
    {c : Cut}
    (hCut : Cut.ofText? text = some c) :
    parse text =
      (ofRows c.firstRow c.moreRows).mapError
        (.description text) := by
  unfold parse read
  rw [Csv.ofText?_eq_some_iff.mp hCut]
  rfl

/- The first fault of a cut is reported for its text. -/
theorem FirstFault.parse_eq_error
    {tapes j : Nat}
    {text : List Char}
    {c : Cut}
    {fault : Fault}
    (hFirst : FirstFault tapes c.rows j fault)
    (hCut : Cut.ofText? text = some c) :
    parse text = .error (.description text fault) := by
  rw [parse_of_ofText?_eq_some hCut, hFirst.ofRows_eq_error]
  rfl

/- What is reported for the text of a cut is its first fault. -/
theorem exists_firstFault_of_parse_eq_error
    {text : List Char}
    {c : Cut}
    {e : Error}
    (hCut : Cut.ofText? text = some c)
    (hError : parse text = .error e)
    (hOther :
      ∀ record,
        e ≠ .description text (.missingRecord record)) :
    ∃ fault tapes j,
      e = .description text fault ∧
        FirstFault tapes c.rows j fault := by
  rw [parse_of_ofText?_eq_some hCut] at hError
  cases hRows : ofRows c.firstRow c.moreRows with
  | ok d =>
      rw [hRows] at hError
      cases hError
  | error fault =>
      rw [hRows] at hError
      cases hError
      have hFault : ∀ record, fault ≠ .missingRecord record := by
        rintro record rfl
        exact hOther record rfl
      rcases exists_firstFault hRows hFault with
        ⟨tapes, j, hFirst⟩
      exact ⟨fault, tapes, j, rfl, hFirst⟩

/- The records before the first fault pass. -/
theorem FirstFault.passes
    {tapes i j : Nat}
    {c : Cut}
    {r : Record}
    {fault : Fault}
    (hFirst : FirstFault tapes c.rows j fault)
    (hLt : i < j)
    (hRecord : c.records[i]? = some r) :
    Passes tapes (i + 1) (r.fields.map RawField.text) := by
  have hRow :
      c.rows[i]? = some (r.locate (c.before i).length) := by
    rw [Cut.getElem?_rows, hRecord]
    rfl
  rw [← Record.texts_locate (c.before i).length]
  apply passes_of_rowFault?_eq_none
  · intro hIndex
    have hZero : i = 0 := Nat.succ.inj hIndex
    rcases hFirst.counted (Nat.zero_lt_of_lt hLt) with
      ⟨header, hHeader, hTapes⟩
    rw [hZero] at hRow ⊢
    rw [hRow] at hHeader
    cases hHeader
    exact hTapes
  · exact hFirst.earlier i _ hLt hRow

/-
  The reader reports the fault that comes first. Unless a record
  of the header is missing, it is that of the first record that
  does not pass its check, and it is the same for every text
  that has the same records up to that one with the same line
  ends between them. If that record should be a rule, it has
  the wrong number of fields, or the place of the fault is that
  of the leftmost field that does not hold what it should.
-/
theorem parse_reports_the_earliest_fault
    {text : List Char}
    {c : Cut}
    {e : Error}
    (hCut : Cut.ofText? text = some c)
    (hError : parse text = .error e)
    (hOther :
      ∀ record,
        e ≠ .description text (.missingRecord record)) :
    ∃ fault j r tapes,
      e = .description text fault ∧
        (j = 1 ∨ j = 4 ∨ 6 ≤ j) ∧
        c.records[j - 1]? = some r ∧
        (∀ text' c',
          Cut.ofText? text' = some c' →
            c'.SharesRecords j c →
            parse text' = .error (.description text' fault)) ∧
        (∀ i s, 1 ≤ i → i < j → c.records[i - 1]? = some s →
          Passes tapes i (s.fields.map RawField.text)) ∧
        (∀ n, (1 < j → n = tapes) →
          ¬ Passes n j (r.fields.map RawField.text)) ∧
        (j = 1 →
          (r.rest = [] ∧
            fault =
              .unsuitable (Span.after [] r.raw)
                .missingTapeCount) ∨
            ∃ f problem,
              r.fields[1]? = some f ∧
                countProblem? f.text = some problem ∧
                fault =
                  .unsuitable (Span.after (r.before 1) f.raw)
                    problem) ∧
        (j = 4 →
          fault =
            .unsuitable (Span.after (c.before 3) r.raw)
              .missingStart) ∧
        (6 ≤ j →
          (r.fields.length ≠ 3 * tapes + 2 ∧
            fault =
              .fieldCount (String.ofList r.first.text)
                r.fields.length (3 * tapes + 2)) ∨
            r.fields.length = 3 * tapes + 2 ∧
              ∃ p f problem span,
                r.fields[p]? = some f ∧
                  fieldProblem? tapes p f.text = some problem ∧
                  (∀ (q : Nat) (g : RawField),
                    q < p → r.fields[q]? = some g →
                      fieldProblem? tapes q g.text = none) ∧
                  fault = .unsuitable span problem ∧
                  span =
                    Span.after (c.before (j - 1) ++ r.before p)
                      f.raw ∧
                  span.slice text = f.raw) := by
  rcases exists_firstFault_of_parse_eq_error hCut hError hOther
    with ⟨fault, tapes, j, rfl, hFirst⟩
  rcases Csv.wellFormed_of_ofText?_eq_some hCut with
    ⟨hWellFormed, hRaw⟩
  rcases hFirst.found with ⟨row, hRow, hFault⟩
  rw [Cut.getElem?_rows] at hRow
  rcases Option.map_eq_some_iff.mp hRow with
    ⟨r, hRecord, rfl⟩
  refine
    ⟨fault, j + 1, r, tapes, rfl,
      index_of_rowFault?_eq_some hFault, hRecord, ?_, ?_, ?_,
      ?_, ?_, ?_⟩
  · intro text' c' hCut' hShares
    have hOther :=
      (Csv.wellFormed_of_ofText?_eq_some hCut').1
    have hTake := hShares.take_rows hOther hWellFormed
    exact (hFirst.of_take_eq hTake).parse_eq_error hCut'
  · intro i s hPositive hLt hEarlier
    rcases Nat.exists_eq_add_of_le' hPositive with ⟨k, rfl⟩
    exact
      hFirst.passes (Nat.lt_of_succ_lt_succ hLt) hEarlier
  · intro n hSame
    -- For the first record the number of tapes makes no
    -- difference, and for a later one it is known.
    have hStill :
        rowFault? n (j + 1) (r.locate (c.before j).length) =
          some fault := by
      rcases Nat.eq_zero_or_pos j with rfl | hLater
      · exact hFault
      · rw [hSame (Nat.succ_lt_succ hLater)]
        exact hFault
    rw [← Record.texts_locate (c.before j).length]
    exact not_passes_of_rowFault?_eq_some hStill
  · intro hHeader
    cases Nat.succ.inj hHeader
    have hReader :
        readHeader (r.locate ([] : List Char).length) =
          .error fault :=
      fault?_eq_some_iff.mp hFault
    exact exists_of_readHeader_locate_eq_error hReader
  · intro hFourth
    cases Nat.succ.inj hFourth
    exact
      eq_of_readStart_locate_eq_error
        (fault?_eq_some_iff.mp hFault)
  · intro hRule
    rw [rowFault?_of_le hRule] at hFault
    split at hFault
    · cases hFault
    · rcases
        exists_of_readRule_locate_eq_error
          (fault?_eq_some_iff.mp hFault) with
        hCount | ⟨hCount, p, f, problem, hField, hProblem,
          hEarlier, hPlace⟩
      · exact Or.inl hCount
      · refine
          Or.inr
            ⟨hCount, p, f, problem, _, hField, hProblem,
              hEarlier, hPlace, rfl, ?_⟩
        rcases Cut.exists_raw_eq hRecord with
          ⟨after, hText⟩
        rcases Record.exists_raw_eq hField with
          ⟨rest, hFront⟩
        have hSplit :
            text =
              c.before j ++ r.before p ++ f.raw ++
                (rest ++ after) := by
          rw [← hRaw, hText, hFront]
          simp
        rw [hSplit]
        exact Span.slice_after _ _ _

/-
  A text with an empty record, a rule with two fields that do
  not hold what they should, a record with too few fields, and
  whatever follows.
-/
def faultyText
    (more : String) : List Char :=
  ("m,1\nab\np\np\np\n\np,a,p, bb ,X\r\np,a" ++ more).toList

/-
  The symbol to write is reported, with the spaces around it,
  and it is still reported if more records follow.
-/
theorem parse_of_faultyText :
    parse (faultyText "") =
        .error
          (.description (faultyText "")
            (.unsuitable ⟨20, 24⟩
              (.invalidSymbol ['b', 'b']))) ∧
      parse (faultyText "\n\"\",\n\nq") =
        .error
          (.description (faultyText "\n\"\",\n\nq")
            (.unsuitable ⟨20, 24⟩
              (.invalidSymbol ['b', 'b']))) := by
  have hCut :
      ∀ more ∈ ["", "\n\"\",\n\nq"],
        Cut.ofText? (faultyText more) =
          some (Csv.scan (faultyText more)).1 := by
    decide +kernel
  have hError :
      parse (faultyText "") =
        .error
          (.description (faultyText "")
            (.unsuitable ⟨20, 24⟩
              (.invalidSymbol ['b', 'b']))) := by
    decide +kernel
  have hLength :
      (Csv.scan (faultyText "")).1.records.length = 8 := by
    decide +kernel
  have hShares :
      ∀ j ≤ 8,
        (Csv.scan (faultyText "\n\"\",\n\nq")).1.SharesRecords j
          (Csv.scan (faultyText "")).1 := by
    decide +kernel
  have hOther :
      ∀ record,
        Error.description (faultyText "")
            (.unsuitable ⟨20, 24⟩
              (.invalidSymbol ['b', 'b'])) ≠
          .description (faultyText "")
            (.missingRecord record) := by
    intro record hSame
    cases (Error.description.inj hSame).2
  rcases
      parse_reports_the_earliest_fault
        (hCut "" List.mem_cons_self) hError hOther with
    ⟨reported, j, r, tapes, hSame, _hKind, hRecord, hAgain,
      _hRest⟩
  rw [← (Error.description.inj hSame).2] at hAgain
  have hIndex := (List.getElem?_eq_some_iff.mp hRecord).1
  refine ⟨hError, hAgain _ _ (hCut _ (by decide)) ?_⟩
  exact hShares j (by omega)

end Description

end MultiTape
