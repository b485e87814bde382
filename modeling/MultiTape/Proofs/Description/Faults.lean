import MultiTape.Proofs.Csv.Places
import MultiTape.Proofs.Description.Buildable

/-
  This file says which fault the reader of a description ends
  with. Every row is read for itself, with the number of tapes
  that the first one gives, and the first row with a fault
  decides. In a rule it is the leftmost field that does not hold
  what it should, although the fields are read in three passes.

  Key definitions include:
    * `Role`
    * `roles`
    * `fieldProblem?`
    * `Description.fault?`
    * `Description.rowFault?`
    * `Description.FirstFault`

  Main statements:
    * `Description.fault?_readRule`
    * `Description.FirstFault.of_take_eq`
    * `Description.FirstFault.ofRows_eq_error`
    * `Description.exists_firstFault`
-/

namespace MultiTape

open MultiTape.Csv (Field Row)

------------------------------------------------------------
-- The Fields Of A Rule
------------------------------------------------------------

/- What a field of a rule holds. -/
inductive Role where
  | state
  | symbol
  | move
  deriving DecidableEq, Repr

/- What is wrong with the text of a field, if anything is. -/
def Role.problem? : Role → List Char → Option Problem
  | state, _ => none
  | symbol, text =>
      if text.length = 1 then
        none
      else
        some (.invalidSymbol text)
  | move, text =>
      if text ∈ [['L'], ['R'], ['S']] then
        none
      else
        some (.invalidMove text)

/- What the fields of a rule hold, in order. -/
def roles
    (tapes : Nat) : List Role :=
  .state ::
    (List.replicate tapes .symbol ++
      .state ::
        (List.replicate tapes .symbol ++
          List.replicate tapes .move))

/- What is wrong with a text at a place in a rule. -/
def fieldProblem?
    (tapes p : Nat)
    (text : List Char) : Option Problem :=
  (roles tapes)[p]?.bind fun role => role.problem? text

namespace Description

------------------------------------------------------------
-- Faults Of Readers
------------------------------------------------------------

/- The fault that a reader ends with. -/
def fault?
    {α : Type} : Except Fault α → Option Fault
  | .error fault => some fault
  | .ok _ => none

/- A reader has a fault exactly when it ends with it. -/
theorem fault?_eq_some_iff
    {α : Type}
    {x : Except Fault α}
    {fault : Fault} :
    fault? x = some fault ↔ x = .error fault := by
  cases x with
  | error e => simp [fault?]
  | ok a => simp [fault?]

/- A reader has no fault exactly when it succeeds. -/
theorem fault?_eq_none_iff
    {α : Type}
    {x : Except Fault α} :
    fault? x = none ↔ ∃ a, x = .ok a := by
  cases x with
  | error e => simp [fault?]
  | ok a => simp [fault?]

/- What is done with a result makes no difference. -/
theorem fault?_bind_pure
    {α β : Type}
    (x : Except Fault α)
    (g : α → β) :
    fault? (do return g (← x)) = fault? x := by
  cases x with
  | error e => rfl
  | ok a => rfl

/- On a list, the first fault ends the reading. -/
theorem fault?_mapM
    {α β : Type}
    (read : α → Except Fault β)
    (items : List α) :
    fault? (items.mapM read) =
      items.findSome? fun a => fault? (read a) := by
  induction items with
  | nil => rfl
  | cons a items ih =>
      rw [List.mapM_cons, List.findSome?_cons, ← ih]
      cases read a with
      | error e => rfl
      | ok b =>
          cases items.mapM read with
          | error e => rfl
          | ok bs => rfl

/- The first item for which there is an answer gives it. -/
theorem findSome?_eq_some_iff_getElem?
    {α β : Type}
    {f : α → Option β}
    {items : List α}
    {b : β} :
    items.findSome? f = some b ↔
      ∃ i a,
        items[i]? = some a ∧
          f a = some b ∧
          ∀ (k : Nat) (c : α),
            k < i → items[k]? = some c → f c = none := by
  rw [List.findSome?_eq_some_iff]
  constructor
  · rintro ⟨before, a, after, rfl, hSome, hNone⟩
    refine ⟨before.length, a, by simp, hSome, ?_⟩
    intro k c hLt hItem
    rw [List.getElem?_append_left hLt] at hItem
    exact hNone c (List.mem_of_getElem? hItem)
  · rintro ⟨i, a, hItem, hSome, hEarlier⟩
    refine
      ⟨items.take i, a, items.drop (i + 1),
        Csv.eq_take_append_cons_drop hItem, hSome, ?_⟩
    intro c hMem
    rcases List.mem_iff_getElem?.mp hMem with ⟨k, hk⟩
    rw [List.getElem?_take] at hk
    split at hk
    · next hLt => exact hEarlier k c hLt hk
    · cases hk

------------------------------------------------------------
-- Rules
------------------------------------------------------------

/- A fault at a field that does not hold what it should. -/
def fieldFault?
    (role : Role)
    (f : Field) : Option Fault :=
  (role.problem? f.text).map (.unsuitable f.span)

/- The fault of a symbol. -/
theorem fault?_readSymbol
    (f : Field) :
    fault? (readSymbol f) = fieldFault? .symbol f := by
  unfold readSymbol
  simp only [fieldFault?, Role.problem?]
  split
  · next c hText =>
      rw [hText]
      rfl
  · next hText =>
      have hLength : f.text.length ≠ 1 := by
        intro hOne
        rcases List.length_eq_one_iff.mp hOne with ⟨c, hc⟩
        exact hText c hc
      rw [if_neg hLength]
      rfl

/- The fault of a movement. -/
theorem fault?_readMove
    (f : Field) :
    fault? (readMove f) = fieldFault? .move f := by
  unfold readMove
  simp only [fieldFault?, Role.problem?]
  cases hCode : Move.ofCode? f.text with
  | some m =>
      have hMem : f.text ∈ [['L'], ['R'], ['S']] := by
        rw [Move.ofCode?_eq_some_iff.mp hCode]
        cases m with
        | left => decide
        | right => decide
        | stay => decide
      rw [if_pos hMem]
      rfl
  | none =>
      have hMem : f.text ∉ [['L'], ['R'], ['S']] := by
        intro hText
        simp only [List.mem_cons, List.not_mem_nil,
          or_false] at hText
        rcases hText with hText | hText | hText
        · rw [hText] at hCode
          cases hCode
        · rw [hText] at hCode
          cases hCode
        · rw [hText] at hCode
          cases hCode
      rw [if_neg hMem]
      rfl

/- The first fault among fields of one role, and after them. -/
theorem findSome?_zip_replicate_append
    {role : Role}
    {n : Nat}
    {fields : List Field}
    (hLength : fields.length = n)
    (more : List Role)
    (others : List Field) :
    ((List.replicate n role ++ more).zip
        (fields ++ others)).findSome?
          (fun q => fieldFault? q.1 q.2) =
      (fields.findSome? (fieldFault? role)).or
        ((more.zip others).findSome? fun q =>
          fieldFault? q.1 q.2) := by
  induction fields generalizing n with
  | nil =>
      subst hLength
      rfl
  | cons f fields ih =>
      subst hLength
      rw [List.length_cons, List.replicate_succ,
        List.cons_append, List.cons_append,
        List.zip_cons_cons, List.findSome?_cons, ih rfl,
        List.findSome?_cons]
      cases fieldFault? role f with
      | none => rfl
      | some fault => rfl

/- The first fault among the fields of a rule. -/
theorem findSome?_zip_roles
    {tapes : Nat}
    {reads writes moves : List Field}
    (hReads : reads.length = tapes)
    (hWrites : writes.length = tapes)
    (hMoves : moves.length = tapes)
    (state next : Field) :
    ((roles tapes).zip
        (state ::
          (reads ++ next :: (writes ++ moves)))).findSome?
            (fun q => fieldFault? q.1 q.2) =
      (reads.findSome? (fieldFault? .symbol)).or
        ((writes.findSome? (fieldFault? .symbol)).or
          (moves.findSome? (fieldFault? .move))) := by
  have hState : ∀ f, fieldFault? .state f = none := by
    intro f
    rfl
  have hLast :=
    @findSome?_zip_replicate_append .move _ _ hMoves [] []
  rw [List.append_nil, List.append_nil, List.zip_nil_left,
    List.findSome?_nil, Option.or_none] at hLast
  rw [roles, List.zip_cons_cons, List.findSome?_cons, hState,
    findSome?_zip_replicate_append hReads,
    List.zip_cons_cons, List.findSome?_cons, hState,
    findSome?_zip_replicate_append hWrites, hLast]

/- Three readers one after the other. -/
theorem fault?_bind_bind_bind
    {α β γ δ : Type}
    (x : Except Fault α)
    (y : Except Fault β)
    (z : Except Fault γ)
    (g : α → β → γ → δ) :
    fault?
        (do
          let a ← x
          let b ← y
          let c ← z
          return g a b c) =
      (fault? x).or ((fault? y).or (fault? z)) := by
  cases x with
  | error e => rfl
  | ok a =>
      cases y with
      | error e => rfl
      | ok b =>
          cases z with
          | error e => rfl
          | ok c => rfl

/-
  The fault of a rule of the right width is that of the leftmost
  field that has one. The three passes take the fields in the
  order in which they stand.
-/
theorem fault?_readRule
    {tapes : Nat}
    {row : Row}
    (hWidth : row.width = 3 * tapes + 2) :
    fault? (readRule tapes row) =
      ((roles tapes).zip row.fields).findSome? fun q =>
        fieldFault? q.1 q.2 := by
  have hLength : row.rest.length = 3 * tapes + 1 :=
    Nat.succ.inj hWidth
  cases hDrop : row.rest.drop tapes with
  | nil =>
      have hShort := List.drop_eq_nil_iff.mp hDrop
      omega
  | cons next after =>
      have hAfter : after.length = 2 * tapes := by
        have hDropped := congrArg List.length hDrop
        rw [List.length_drop, List.length_cons] at hDropped
        omega
      have hReads : (row.rest.take tapes).length = tapes := by
        rw [List.length_take]
        omega
      have hWrites : (after.take tapes).length = tapes := by
        rw [List.length_take]
        omega
      have hMoves : (after.drop tapes).length = tapes := by
        rw [List.length_drop]
        omega
      have hFields :
          row.fields =
            row.first ::
              (row.rest.take tapes ++
                next ::
                  (after.take tapes ++ after.drop tapes)) := by
        rw [List.take_append_drop, ← hDrop,
          List.take_append_drop]
        rfl
      have hSymbols :
          (fun f => fault? (readSymbol f)) =
            fieldFault? .symbol :=
        funext fault?_readSymbol
      have hCodes :
          (fun f => fault? (readMove f)) =
            fieldFault? .move :=
        funext fault?_readMove
      unfold readRule
      rw [hDrop]
      simp only [if_pos hWidth]
      rw [fault?_bind_bind_bind, fault?_mapM, fault?_mapM,
        fault?_mapM, hSymbols, hCodes, hFields,
        findSome?_zip_roles hReads hWrites hMoves]

------------------------------------------------------------
-- Rows
------------------------------------------------------------

/- The fault of a row at an index that is counted from one. -/
def rowFault?
    (tapes i : Nat)
    (row : Row) : Option Fault :=
  if i = 1 then
    fault? (readHeader row)
  else if i = 4 then
    fault? (readStart row)
  else if 6 ≤ i ∧ ¬ row.IsEmpty then
    fault? (readRule tapes row)
  else
    none

/- From the sixth row on the rows are those of rules. -/
theorem rowFault?_of_le
    {tapes i : Nat}
    (hIndex : 6 ≤ i)
    (row : Row) :
    rowFault? tapes i row =
      if row.IsEmpty then
        none
      else
        fault? (readRule tapes row) := by
  have hFirst : i ≠ 1 := by
    omega
  have hFourth : i ≠ 4 := by
    omega
  unfold rowFault?
  rw [if_neg hFirst, if_neg hFourth]
  by_cases hEmpty : row.IsEmpty
  · simp [hEmpty]
  · simp [hEmpty, hIndex]

/- Only these rows can have a fault. -/
theorem index_of_rowFault?_eq_some
    {tapes i : Nat}
    {row : Row}
    {fault : Fault}
    (hSome : rowFault? tapes i row = some fault) :
    i = 1 ∨ i = 4 ∨ 6 ≤ i := by
  unfold rowFault? at hSome
  split at hSome
  · next hFirst => exact Or.inl hFirst
  · split at hSome
    · next hFourth => exact Or.inr (Or.inl hFourth)
    · split at hSome
      · next hRule => exact Or.inr (Or.inr hRule.1)
      · cases hSome

/-
  The fault at an index of the rows, counted from zero, is the
  first one. After the first row the number of tapes is known
  from it.
-/
structure FirstFault
    (tapes : Nat)
    (rows : List Row)
    (j : Nat)
    (fault : Fault) : Prop where
  found :
    ∃ row,
      rows[j]? = some row ∧
        rowFault? tapes (j + 1) row = some fault
  earlier :
    ∀ (i : Nat) (row : Row), i < j → rows[i]? = some row →
      rowFault? tapes (i + 1) row = none
  counted :
    0 < j →
      ∃ header,
        rows[0]? = some header ∧
          readHeader header = .ok tapes

/- The first fault is told by the rows up to it. -/
theorem FirstFault.of_take_eq
    {tapes j : Nat}
    {rows rows' : List Row}
    {fault : Fault}
    (hFirst : FirstFault tapes rows j fault)
    (hTake : rows'.take (j + 1) = rows.take (j + 1)) :
    FirstFault tapes rows' j fault := by
  have hSame : ∀ i, i < j + 1 → rows'[i]? = rows[i]? := by
    intro i hLt
    rw [← List.getElem?_take_of_lt hLt, hTake,
      List.getElem?_take_of_lt hLt]
  refine ⟨?_, ?_, ?_⟩
  · rw [hSame j (Nat.lt_succ_self j)]
    exact hFirst.found
  · intro i row hLt hRow
    rw [hSame i (Nat.lt_succ_of_lt hLt)] at hRow
    exact hFirst.earlier i row hLt hRow
  · rw [hSame 0 (Nat.succ_pos j)]
    exact hFirst.counted

/- The fault of rules is that of the first row that has one. -/
theorem fault?_mapM_ruleRows
    (tapes : Nat)
    (rows : List Row) :
    fault? ((ruleRows rows).mapM (readRule tapes)) =
      rows.findSome? (rowFault? tapes 6) := by
  rw [fault?_mapM]
  induction rows with
  | nil => rfl
  | cons row rows ih =>
      rw [List.findSome?_cons, rowFault?_of_le (Nat.le_refl 6)]
      by_cases hEmpty : row.IsEmpty
      · rw [ruleRows_cons_of_isEmpty hEmpty, if_pos hEmpty, ih]
      · rw [ruleRows_cons_of_not_isEmpty hEmpty,
          if_neg hEmpty, List.findSome?_cons, ih]

/- The fault of rows of which the header can be read. -/
theorem fault?_ofRows
    {tapes : Nat}
    {header : Row}
    (hHeader : readHeader header = .ok tapes)
    (input states start : Row)
    (rows : List Row) :
    fault? (ofRows header (input :: states :: start :: rows)) =
      (fault? (readStart start)).or
        ((fault? (takeRow .accept rows)).or
          (rows.tail.findSome? (rowFault? tapes 6))) := by
  have hRead :
      ofRows header (input :: states :: start :: rows) =
        (do
          let start ← readStart start
          let taken ← takeRow .accept rows
          let rules ← (ruleRows taken.2).mapM (readRule tapes)
          return {
            name := String.ofList header.first.text
            tapes := tapes
            input := input.first.text
            states := states.names
            start := start
            accept := taken.1.names
            mode := .overwrite
            rules := rules }) := by
    unfold ofRows
    rw [hHeader]
    rfl
  rw [hRead]
  cases readStart start with
  | error e => rfl
  | ok state =>
      cases rows with
      | nil => rfl
      | cons accept rules =>
          exact
            (fault?_bind_pure _ _).trans
              (fault?_mapM_ruleRows tapes rules)

/- Rows after the header up to the one of the start state. -/
theorem exists_eq_cons_of_le_length
    {more : List Row}
    (hLength : 3 ≤ more.length) :
    ∃ input states start rows,
      more = input :: states :: start :: rows := by
  match more, hLength with
  | input :: states :: start :: rows, _hLength =>
      exact ⟨input, states, start, rows, rfl⟩

/- Without these rows one of them is missing. -/
theorem exists_missingRecord_of_length_lt
    {tapes : Nat}
    {header : Row}
    {more : List Row}
    (hHeader : readHeader header = .ok tapes)
    (hLength : more.length < 3) :
    ∃ record,
      ofRows header more = .error (.missingRecord record) := by
  unfold ofRows
  rw [hHeader]
  rcases more with
    _ | ⟨input, _ | ⟨states, _ | ⟨start, rows⟩⟩⟩
  · exact ⟨.input, rfl⟩
  · exact ⟨.states, rfl⟩
  · exact ⟨.start, rfl⟩
  · simp only [List.length_cons] at hLength
    omega

/- The first fault of rows is what the reader ends with. -/
theorem FirstFault.ofRows_eq_error
    {tapes j : Nat}
    {header : Row}
    {more : List Row}
    {fault : Fault}
    (hFirst : FirstFault tapes (header :: more) j fault) :
    ofRows header more = .error fault := by
  rcases hFirst.found with ⟨row, hRow, hFault⟩
  rcases Nat.eq_zero_or_pos j with rfl | hLater
  · cases hRow
    have hHeader : readHeader header = .error fault :=
      fault?_eq_some_iff.mp hFault
    unfold ofRows
    rw [hHeader]
    rfl
  · rcases hFirst.counted hLater with
      ⟨_header, hSame, hHeader⟩
    cases hSame
    have hIndex : j = 3 ∨ 5 ≤ j := by
      have hCases := index_of_rowFault?_eq_some hFault
      omega
    have hLength := (List.getElem?_eq_some_iff.mp hRow).1
    rw [List.length_cons] at hLength
    have hRows : 3 ≤ more.length := by
      omega
    rcases exists_eq_cons_of_le_length hRows with
      ⟨input, states, start, rows, rfl⟩
    rw [← fault?_eq_some_iff, fault?_ofRows hHeader]
    rcases hIndex with rfl | hRule
    · have hSame : start = row := Option.some.inj hRow
      have hStart : fault? (readStart start) = some fault := by
        rw [hSame]
        exact hFault
      rw [hStart, Option.some_or]
    · have hStart : fault? (readStart start) = none :=
        hFirst.earlier 3 start (by omega) rfl
      rcases Nat.exists_eq_add_of_le' hRule with ⟨k, rfl⟩
      rw [hStart, Option.none_or]
      cases rows with
      | nil =>
          simp only [List.length_cons, List.length_nil]
            at hLength
          omega
      | cons accept rules =>
          refine
            findSome?_eq_some_iff_getElem?.mpr
              ⟨k, row, hRow, ?_, ?_⟩
          · rw [rowFault?_of_le (by omega)] at hFault ⊢
            exact hFault
          · intro i other hLt hOther
            have hNone :=
              hFirst.earlier (i + 5) other
                (Nat.add_lt_add_right hLt 5) hOther
            rw [rowFault?_of_le (by omega)] at hNone ⊢
            exact hNone

/- The rows of a header that could be read have no fault. -/
theorem rowFault?_eq_none_of_lt
    {tapes i : Nat}
    {header input states start row : Row}
    {rows : List Row}
    (hHeader : readHeader header = .ok tapes)
    (hStart : i = 3 → fault? (readStart start) = none)
    (hLt : i < 5)
    (hRow :
      (header :: input :: states :: start :: rows)[i]? =
        some row) :
    rowFault? tapes (i + 1) row = none := by
  by_cases hFirst : i = 0
  · subst hFirst
    cases hRow
    exact fault?_eq_none_iff.mpr ⟨tapes, hHeader⟩
  · by_cases hFourth : i = 3
    · subst hFourth
      cases hRow
      exact hStart rfl
    · unfold rowFault?
      rw [if_neg (by omega), if_neg (by omega)]
      apply if_neg
      rintro ⟨hRule, _hRow⟩
      omega

/-
  If the reader ends with a fault, a record is missing or the
  fault is the first one of the rows.
-/
theorem exists_firstFault
    {header : Row}
    {more : List Row}
    {fault : Fault}
    (hError : ofRows header more = .error fault)
    (hOther : ∀ record, fault ≠ .missingRecord record) :
    ∃ tapes j, FirstFault tapes (header :: more) j fault := by
  cases hHeader : readHeader header with
  | error e =>
      have hSame : ofRows header more = .error e := by
        unfold ofRows
        rw [hHeader]
        rfl
      have hFault : rowFault? 0 1 header = some fault := by
        rw [hSame] at hError
        cases hError
        exact fault?_eq_some_iff.mpr hHeader
      refine ⟨0, 0, ⟨header, rfl, hFault⟩, ?_, ?_⟩
      · intro i row hLt
        exact absurd hLt (Nat.not_lt_zero i)
      · intro hLt
        exact absurd hLt (Nat.lt_irrefl 0)
  | ok tapes =>
      have hCounted :
          ∃ row,
            (header :: more)[0]? = some row ∧
              readHeader row = .ok tapes :=
        ⟨header, rfl, hHeader⟩
      have hLength : 3 ≤ more.length := by
        by_contra hShort
        rcases
            exists_missingRecord_of_length_lt hHeader
              (Nat.lt_of_not_le hShort) with
          ⟨record, hMissing⟩
        rw [hMissing] at hError
        cases hError
        exact hOther record rfl
      rcases exists_eq_cons_of_le_length hLength with
        ⟨input, states, start, rows, rfl⟩
      rw [← fault?_eq_some_iff, fault?_ofRows hHeader]
        at hError
      rcases Option.or_eq_some_iff.mp hError with
        hStart | ⟨hStart, hRest⟩
      · refine
          ⟨tapes, 3, ⟨start, rfl, hStart⟩, ?_,
            fun _ => hCounted⟩
        intro i row hLt hRow
        exact
          rowFault?_eq_none_of_lt hHeader (by omega) (by omega)
            hRow
      · cases rows with
        | nil =>
            cases hRest
            exact absurd rfl (hOther .accept)
        | cons accept rules =>
            rcases findSome?_eq_some_iff_getElem?.mp hRest with
              ⟨k, row, hRow, hFault, hEarlier⟩
            refine
              ⟨tapes, k + 5, ⟨row, hRow, ?_⟩, ?_,
                fun _ => hCounted⟩
            · rw [rowFault?_of_le (by omega)] at hFault ⊢
              exact hFault
            · intro i other hLt hAt
              by_cases hRule : 5 ≤ i
              · rcases Nat.exists_eq_add_of_le' hRule with
                  ⟨n, rfl⟩
                have hNone :=
                  hEarlier n other (by omega) hAt
                rw [rowFault?_of_le (by omega)] at hNone ⊢
                exact hNone
              · exact
                  rowFault?_eq_none_of_lt hHeader
                    (fun _ => hStart) (by omega) hAt

end Description

end MultiTape
