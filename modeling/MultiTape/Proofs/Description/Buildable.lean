import MultiTape.Description.Finding
import MultiTape.Proofs.Description.Assembly
import MultiTape.Proofs.Description.Rendering
import MultiTape.Proofs.Machine.StrictBuild

/-
  This file shows that a text which is read as a description
  gives one that a machine can be built from: what the reader
  has checked is all that the later checks ask for. It also
  shows that a rule is read from positions that its record has.

  Key definitions include:
    * `Description.slice?`
    * `Description.readRuleAt?`

  Main statements:
    * `Description.parse_eq_ok_iff`
    * `Description.wellFormed_of_parse_eq_ok`
    * `Description.WellFormed.inconsistentArity_not_mem`
    * `Description.WellFormed.exists_result_ofDescription`
    * `Description.readRuleAt?_eq_some`
-/

namespace MultiTape

open MultiTape.Csv (Field Row Cut)

------------------------------------------------------------
-- Rows
------------------------------------------------------------

/- A row is as wide as it has fields. -/
theorem Csv.Row.length_fields
    (row : Row) :
    row.fields.length = row.width :=
  rfl

/- No name of a row is empty. -/
theorem Csv.Row.empty_not_mem_names
    (row : Row) :
    "" ∉ row.names := by
  intro hMem
  rcases List.mem_map.mp hMem with ⟨text, hText, hEmpty⟩
  have hNe : text ≠ [] := by
    exact of_decide_eq_true (List.mem_filter.mp hText).2
  apply hNe
  rw [← String.toList_ofList (l := text), hEmpty]
  rfl

------------------------------------------------------------
-- Accepted Texts
------------------------------------------------------------

namespace Description

/- Rules that were read fit the number of tapes. -/
theorem fits_of_mapM_readRule_eq_ok
    {tapes : Nat}
    {rows : List Row}
    {rules : List Rule}
    (hOk : rows.mapM (readRule tapes) = .ok rules) :
    ∀ r ∈ rules, r.Fits tapes := by
  rw [mapM_eq_ok_iff] at hOk
  induction hOk with
  | nil =>
      intro r hr
      cases hr
  | cons hRead _hMore ih =>
      intro r hr
      rcases List.mem_cons.mp hr with rfl | hr
      · exact (readRule_eq_ok_iff.mp hRead).2
      · exact ih r hr

/- A description that rows give is well formed. -/
theorem wellFormed_of_ofRows_eq_ok
    {header : Row}
    {rows : List Row}
    {d : Description}
    (hOk : ofRows header rows = .ok d) :
    d.WellFormed := by
  rcases ofRows_eq_ok_iff.mp hOk with
    ⟨input, states, start, accept, more, _hRows, hTapes,
      hStart, hRules, _hName, _hInput, hStates, hAccept,
      hMode⟩
  rcases readHeader_eq_ok_iff.mp hTapes with
    ⟨name, count, fields, _hTexts, _hCount, hPos, hMax⟩
  exact
    { tapes_pos := hPos
      tapes_le := hMax
      start := (readStart_eq_ok_iff.mp hStart).1
      states := hStates ▸ states.empty_not_mem_names
      accept := hAccept ▸ accept.empty_not_mem_names
      rules := fits_of_mapM_readRule_eq_ok hRules
      mode := hMode }

/- A text is accepted if it can be cut and its rows are. -/
theorem parse_eq_ok_iff
    {text : List Char}
    {d : Description} :
    parse text = .ok d ↔
      ∃ c,
        Cut.ofText? text = some c ∧
          ofRows c.firstRow c.moreRows = .ok d := by
  unfold parse read Cut.ofText?
  by_cases hAll : (Csv.scan text).2 = []
  · simp only [hAll, if_true, Option.some.injEq,
      exists_eq_left']
    cases ofRows (Csv.scan text).1.firstRow
        (Csv.scan text).1.moreRows with
    | error fault => simp [Except.mapError]
    | ok d' => simp [Except.mapError]
  · simp [hAll, Except.mapError]

/- A description that a text gives is well formed. -/
theorem wellFormed_of_parse_eq_ok
    {text : List Char}
    {d : Description}
    (hOk : parse text = .ok d) :
    d.WellFormed := by
  rcases parse_eq_ok_iff.mp hOk with ⟨c, _hCut, hRows⟩
  exact wellFormed_of_ofRows_eq_ok hRows

------------------------------------------------------------
-- Findings
------------------------------------------------------------

/- A complaint is the report that was asked for. -/
theorem eq_of_complain_eq_some
    {α : Type}
    {report : List α → Finding}
    {items : List α}
    {f : Finding}
    (hSome : complain report items = some f) :
    f = report items := by
  unfold complain at hSome
  split at hSome
  · cases hSome
  · cases hSome
    rfl

/- The check of entries passes exactly where all rules fit. -/
theorem checkArity_eq_none_iff
    {d : Description} :
    d.checkArity = none ↔ ∀ r ∈ d.rules, r.Fits d.tapes := by
  unfold checkArity
  rw [Option.map_eq_none_iff, List.find?_eq_none]
  constructor
  · intro hNone r hr
    have hFits := hNone r hr
    simp only [decide_eq_true_eq, not_or, not_not] at hFits
    exact ⟨hFits.1, hFits.2.1, hFits.2.2⟩
  · intro hAll r hr
    have hFits := hAll r hr
    simp [hFits.read, hFits.write, hFits.moves]

/- It passes for a well formed description. -/
theorem WellFormed.checkArity_eq_none
    {d : Description}
    (hDescription : d.WellFormed) :
    d.checkArity = none :=
  checkArity_eq_none_iff.mpr hDescription.rules

/- Of all checks only that of entries finds a rule that lacks some. -/
theorem inconsistentArity_mem_findings_iff
    {d : Description}
    {state : State} :
    .inconsistentArity state ∈ d.findings ↔
      d.checkArity = some (.inconsistentArity state) := by
  unfold findings
  rw [List.mem_filterMap]
  constructor
  · rintro ⟨check, hCheck, hFound⟩
    simp only [List.mem_cons, List.not_mem_nil, or_false]
      at hCheck
    -- One case for each check, in the order of the list.
    rcases hCheck with rfl | rfl | rfl | rfl | rfl | rfl
    · exact hFound
    · unfold checkStart at hFound
      split at hFound <;> cases hFound
    · cases eq_of_complain_eq_some hFound
    · cases eq_of_complain_eq_some hFound
    · unfold checkStartRule at hFound
      split at hFound <;> cases hFound
    · unfold checkWritten at hFound
      split at hFound
      · cases eq_of_complain_eq_some hFound
      · cases hFound
  · intro hCheck
    exact ⟨checkArity, List.mem_cons_self, hCheck⟩

/- No rule of a well formed description is found to lack entries. -/
theorem WellFormed.inconsistentArity_not_mem
    {d : Description}
    (hDescription : d.WellFormed)
    (state : State) :
    .inconsistentArity state ∉ d.findings := by
  rw [inconsistentArity_mem_findings_iff,
    hDescription.checkArity_eq_none]
  intro hFound
  cases hFound

------------------------------------------------------------
-- Building
------------------------------------------------------------

/- A machine can be built from a well formed description. -/
theorem WellFormed.exists_result_ofDescription
    {d : Description}
    (hDescription : d.WellFormed) :
    ∃ m, (Machine.ofDescription d).result = .ok m :=
  exists_result_ofDescription_eq_ok
    ⟨hDescription.tapes_pos, hDescription.tapes_le⟩
    hDescription.mode hDescription.rules

/- A well formed description lets later rules replace earlier ones. -/
theorem WellFormed.buildIn_overwrite
    {d : Description}
    (hDescription : d.WellFormed) :
    Machine.buildIn .overwrite d =
      Machine.ofDescription d := by
  unfold Machine.buildIn
  rw [← hDescription.mode]

/-
  The strict build of a well formed description succeeds, or it
  ends with a conflict; nothing else can be wrong.
-/
theorem WellFormed.result_strict
    {d : Description}
    (hDescription : d.WellFormed) :
    (∃ m,
      (Machine.ofDescription
        { d with mode := .strict }).result = .ok m) ∨
    ∃ key,
      (Machine.ofDescription
        { d with mode := .strict }).result =
          .error (.conflictingRule key) := by
  have hStrict := Machine.result_buildIn_strict d
  rcases hDescription.exists_result_ofDescription with
    ⟨m, hOk⟩
  rw [hDescription.buildIn_overwrite, hOk] at hStrict
  split at hStrict
  · next key _hKey => exact Or.inr ⟨key, hStrict⟩
  · exact Or.inl ⟨_, hStrict⟩

------------------------------------------------------------
-- Positions
------------------------------------------------------------

/- The fields between two positions, if there are such positions. -/
def slice?
    (fields : List Field)
    (start stop : Nat) : Option (List Field) :=
  if start ≤ stop ∧ stop ≤ fields.length then
    some ((fields.take stop).drop start)
  else
    none

/-
  A rule read by positions: the state is at the first one, the
  symbols to read follow, and so on. There is no answer if one
  of the positions is out of range.
-/
def readRuleAt?
    (tapes : Nat)
    (row : Row) : Option (Except Fault Rule) :=
  let fields := row.fields
  let expected := 3 * tapes + 2
  if fields.length ≠ expected then
    some
      (.error
        (.fieldCount (String.ofList row.first.text)
          fields.length expected))
  else do
    let reads ← slice? fields 1 (tapes + 1)
    let writes ← slice? fields (tapes + 2) (2 * tapes + 2)
    let moves ← slice? fields (2 * tapes + 2) fields.length
    let state ← fields[0]?
    let next ← fields[tapes + 1]?
    return do
      let read ← reads.mapM readSymbol
      let write ← writes.mapM readSymbol
      let moves ← moves.mapM readMove
      return ⟨String.ofList state.text, read,
        String.ofList next.text, write, moves⟩

/- Positions in order and in range have fields between them. -/
theorem slice?_eq_some
    {fields : List Field}
    {start stop : Nat}
    (hOrder : start ≤ stop)
    (hRange : stop ≤ fields.length) :
    slice? fields start stop =
      some ((fields.drop start).take (stop - start)) := by
  unfold slice?
  rw [if_pos ⟨hOrder, hRange⟩, List.drop_take]

/- A record with another number of fields is no rule. -/
theorem readRule_of_width_ne
    {tapes : Nat}
    {row : Row}
    (hWidth : row.width ≠ 3 * tapes + 2) :
    readRule tapes row =
      .error
        (.fieldCount (String.ofList row.first.text)
          row.width (3 * tapes + 2)) := by
  unfold readRule
  cases row.rest.drop tapes with
  | nil => rfl
  | cons next after => exact if_neg hWidth

/- The symbols to read are in range. -/
theorem slice?_reads
    {tapes : Nat}
    {row : Row}
    (hWidth : row.width = 3 * tapes + 2) :
    slice? row.fields 1 (tapes + 1) =
      some (row.rest.take tapes) := by
  have hRange : tapes + 1 ≤ row.fields.length := by
    rw [row.length_fields]
    omega
  exact slice?_eq_some (Nat.le_add_left 1 tapes) hRange

/- The symbols to write are in range. -/
theorem slice?_writes
    {tapes : Nat}
    {row : Row}
    (hWidth : row.width = 3 * tapes + 2) :
    slice? row.fields (tapes + 2) (2 * tapes + 2) =
      some ((row.rest.drop (tapes + 1)).take tapes) := by
  have hOrder : tapes + 2 ≤ 2 * tapes + 2 := by
    omega
  have hRange : 2 * tapes + 2 ≤ row.fields.length := by
    rw [row.length_fields]
    omega
  have hCount : 2 * tapes + 2 - (tapes + 2) = tapes := by
    omega
  rw [slice?_eq_some hOrder hRange, hCount]
  rfl

/- The movements are in range and reach up to the last field. -/
theorem slice?_moves
    {tapes : Nat}
    {row : Row}
    (hWidth : row.width = 3 * tapes + 2) :
    slice? row.fields (2 * tapes + 2) row.fields.length =
      some ((row.rest.drop (tapes + 1)).drop tapes) := by
  have hOrder : 2 * tapes + 2 ≤ row.fields.length := by
    rw [row.length_fields]
    omega
  have hCount : tapes + 1 + tapes = 2 * tapes + 1 := by
    omega
  rw [slice?_eq_some hOrder (Nat.le_refl _),
    ← List.length_drop, List.take_length, List.drop_drop,
    hCount]
  rfl

/-
  All positions of a rule are in range, whatever the row and the
  number of tapes, and what is read from them is the rule.
-/
theorem readRuleAt?_eq_some
    (tapes : Nat)
    (row : Row) :
    readRuleAt? tapes row = some (readRule tapes row) := by
  by_cases hWidth : row.width = 3 * tapes + 2
  · have hLength := row.length_fields.trans hWidth
    have hNext : tapes < row.rest.length := by
      have hRest : row.rest.length = 3 * tapes + 1 := by
        exact Nat.succ.inj hWidth
      omega
    have hState : row.fields[0]? = some row.first := by
      rfl
    have hAt :
        row.fields[tapes + 1]? = some row.rest[tapes] := by
      exact List.getElem?_eq_getElem hNext
    have hMoves := slice?_moves hWidth
    rw [hLength] at hMoves
    unfold readRuleAt? readRule
    rw [List.drop_eq_getElem_cons hNext]
    simp only [hLength, hWidth, ne_eq, not_true, if_false,
      if_true, slice?_reads hWidth, slice?_writes hWidth,
      hMoves, hState, hAt]
    rfl
  · rw [readRule_of_width_ne hWidth]
    exact if_pos hWidth

end Description

end MultiTape
