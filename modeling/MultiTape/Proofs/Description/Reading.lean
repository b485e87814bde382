import MultiTape.Description.Reader
import MultiTape.Proofs.Csv.Writing
import MultiTape.Proofs.Table.Registration

/-
  This file says when the readers of a description succeed and
  with what: success depends on the texts of the fields only,
  not on their places.

  Key definitions include:
    * `Rule.texts`

  Main statements:
    * `Description.readRule_eq_ok_iff`
    * `Description.ofRows_eq_ok_iff`
-/

namespace MultiTape

open MultiTape.Csv (Field Row)

------------------------------------------------------------
-- Texts
------------------------------------------------------------

/- The texts of a symbol each. -/
def symbolTexts
    (symbols : List Symbol) : List (List Char) :=
  symbols.map fun c => [c]

/- The texts of a code each. -/
def moveTexts
    (moves : List Move) : List (List Char) :=
  moves.map fun m => [m.code]

/- The texts of a rule in the order of its record. -/
def Rule.texts
    (r : Rule) : List (List Char) :=
  r.state.toList ::
    (symbolTexts r.read ++
      r.nextState.toList ::
        (symbolTexts r.write ++ moveTexts r.moves))

/- Every symbol has a text. -/
theorem length_symbolTexts
    (symbols : List Symbol) :
    (symbolTexts symbols).length = symbols.length :=
  List.length_map _

/- Every movement has a text. -/
theorem length_moveTexts
    (moves : List Move) :
    (moveTexts moves).length = moves.length :=
  List.length_map _

/- The number of texts follows from the number of tapes. -/
theorem Rule.Fits.length_texts
    {tapes : Nat}
    {r : Rule}
    (hFits : r.Fits tapes) :
    r.texts.length = 3 * tapes + 2 := by
  unfold Rule.texts
  simp only [List.length_cons, List.length_append,
    length_symbolTexts, length_moveTexts, hFits.read,
    hFits.write, hFits.moves]
  omega

namespace Description

------------------------------------------------------------
-- Fields
------------------------------------------------------------

/- One reader after another succeeds if both do. -/
theorem bind_eq_ok_iff
    {α β ε : Type}
    {x : Except ε α}
    {f : α → Except ε β}
    {b : β} :
    x >>= f = .ok b ↔ ∃ a, x = .ok a ∧ f a = .ok b := by
  cases x with
  | error e =>
      constructor
      · intro hOk
        cases hOk
      · intro hParts
        rcases hParts with ⟨a, hOk, -⟩
        cases hOk
  | ok a =>
      constructor
      · intro hOk
        exact ⟨a, rfl, hOk⟩
      · intro hParts
        rcases hParts with ⟨a, hEq, hOk⟩
        cases hEq
        exact hOk

/- Readers succeed on a list if they do on its items, in order. -/
theorem mapM_eq_ok_iff
    {α β ε : Type}
    {f : α → Except ε β}
    {items : List α}
    {results : List β} :
    items.mapM f = .ok results ↔
      List.Forall₂ (fun a b => f a = .ok b)
        items results := by
  induction items generalizing results with
  | nil =>
      rw [List.forall₂_nil_left_iff, List.mapM_nil]
      constructor
      · intro hOk
        cases hOk
        rfl
      · intro hNil
        rw [hNil]
        rfl
  | cons a items ih =>
      rw [List.mapM_cons, List.forall₂_cons_left_iff]
      simp only [bind_eq_ok_iff, ih]
      constructor
      · intro hOk
        rcases hOk with ⟨b, hFirst, bs, hMore, hEq⟩
        cases hEq
        exact ⟨b, bs, hFirst, hMore, rfl⟩
      · intro hParts
        rcases hParts with ⟨b, bs, hFirst, hMore, hEq⟩
        subst hEq
        exact ⟨b, hFirst, bs, hMore, rfl⟩

/- Readers that undo a writer read a list of what was written. -/
theorem mapM_eq_ok_iff_map_eq
    {α β γ ε : Type}
    {f : α → Except ε β}
    {text : α → γ}
    {write : β → γ}
    (hItem : ∀ a b, f a = .ok b ↔ text a = write b)
    {items : List α}
    {results : List β} :
    items.mapM f = .ok results ↔
      items.map text = results.map write := by
  rw [mapM_eq_ok_iff, ← List.forall₂_eq_eq_eq,
    List.forall₂_map_left_iff,
    List.forall₂_map_right_iff]
  simp only [hItem]

/- A field with one character is a symbol. -/
theorem readSymbol_eq_ok_iff
    (f : Field)
    (c : Symbol) :
    readSymbol f = .ok c ↔ f.text = [c] := by
  unfold readSymbol
  constructor
  · intro hOk
    split at hOk
    · next hText =>
        cases hOk
        exact hText
    · cases hOk
  · intro hText
    rw [hText]

/- A field with a code is a movement. -/
theorem readMove_eq_ok_iff
    (f : Field)
    (m : Move) :
    readMove f = .ok m ↔ f.text = [m.code] := by
  rw [← Move.ofCode?_eq_some_iff]
  unfold readMove
  constructor
  · intro hOk
    split at hOk
    · next hCode =>
        cases hOk
        exact hCode
    · cases hOk
  · intro hCode
    rw [hCode]

/- Symbols are read from texts of one character each. -/
theorem mapM_readSymbol_eq_ok_iff
    {fields : List Field}
    {symbols : List Symbol} :
    fields.mapM readSymbol = .ok symbols ↔
      fields.map Field.text = symbolTexts symbols := by
  exact mapM_eq_ok_iff_map_eq readSymbol_eq_ok_iff

/- Movements are read from texts of one code each. -/
theorem mapM_readMove_eq_ok_iff
    {fields : List Field}
    {moves : List Move} :
    fields.mapM readMove = .ok moves ↔
      fields.map Field.text = moveTexts moves := by
  exact mapM_eq_ok_iff_map_eq readMove_eq_ok_iff

/- A field with a numeral in the limits is a number of tapes. -/
theorem readTapes_eq_ok_iff
    {f : Field}
    {n : Nat} :
    readTapes f = .ok n ↔
      Text.count? f.text = some n ∧
        1 ≤ n ∧ n ≤ maxTapes := by
  unfold readTapes
  constructor
  · intro hOk
    split at hOk
    · cases hOk
    · next k hCount =>
        split at hOk
        · cases hOk
        · next hPos =>
            split at hOk
            · cases hOk
            · next hMax =>
                cases hOk
                exact ⟨hCount, by omega, by omega⟩
  · intro hParts
    rcases hParts with ⟨hCount, hPos, hMax⟩
    have hNe : n ≠ 0 := by
      omega
    have hLe : ¬ n > maxTapes := by
      omega
    rw [hCount]
    simp only [hNe, hLe, if_false]

------------------------------------------------------------
-- Records
------------------------------------------------------------

/- The second text of the first record is the number of tapes. -/
theorem readHeader_eq_ok_iff
    {r : Row}
    {n : Nat} :
    readHeader r = .ok n ↔
      ∃ name count more,
        r.texts = name :: count :: more ∧
          Text.count? count = some n ∧
            1 ≤ n ∧ n ≤ maxTapes := by
  rcases r with ⟨first, rest⟩
  unfold readHeader
  cases rest with
  | nil =>
      constructor
      · intro hOk
        cases hOk
      · intro hParts
        rcases hParts with ⟨name, count, more, hTexts, -⟩
        cases hTexts
  | cons f rest =>
      rw [readTapes_eq_ok_iff]
      constructor
      · intro hTapes
        exact ⟨first.text, f.text, rest.map Field.text,
          rfl, hTapes⟩
      · intro hParts
        rcases hParts with
          ⟨name, count, more, hTexts, hTapes⟩
        cases hTexts
        exact hTapes

/- The start state is the first text, if it has characters. -/
theorem readStart_eq_ok_iff
    {r : Row}
    {start : State} :
    readStart r = .ok start ↔
      start ≠ "" ∧ r.first.text = start.toList := by
  unfold readStart
  constructor
  · intro hOk
    split at hOk
    · cases hOk
    · next hText =>
        cases hOk
        refine ⟨?_, String.toList_ofList.symm⟩
        intro hEmpty
        apply hText
        rw [← String.toList_ofList (l := r.first.text), hEmpty]
        rfl
  · intro hParts
    rcases hParts with ⟨hStart, hText⟩
    have hNe : r.first.text ≠ [] := by
      intro hNil
      apply hStart
      rw [hText] at hNil
      exact String.toList_eq_nil_iff.mp hNil
    rw [if_neg hNe, hText, String.ofList_toList]

/-
  A rule is read from a row of the right width: one symbol for
  every tape, a state, one more symbol and one movement for
  every tape.
-/
theorem readRule_eq_ok_iff_parts
    {tapes : Nat}
    {row : Row}
    {r : Rule} :
    readRule tapes row = .ok r ↔
      ∃ next after,
        row.rest.drop tapes = next :: after ∧
          row.width = 3 * tapes + 2 ∧
          row.first.text = r.state.toList ∧
          (row.rest.take tapes).map Field.text =
            symbolTexts r.read ∧
          next.text = r.nextState.toList ∧
          (after.take tapes).map Field.text =
            symbolTexts r.write ∧
          (after.drop tapes).map Field.text =
            moveTexts r.moves := by
  unfold readRule
  constructor
  · intro hOk
    split at hOk
    · cases hOk
    · next next after hDrop =>
        dsimp only at hOk
        split at hOk
        · next hWidth =>
            simp only [bind_eq_ok_iff,
              mapM_readSymbol_eq_ok_iff,
              mapM_readMove_eq_ok_iff] at hOk
            rcases hOk with
              ⟨read, hRead, write, hWrite, moves, hMoves, hEq⟩
            cases hEq
            exact ⟨next, after, hDrop, hWidth,
              String.toList_ofList.symm, hRead,
              String.toList_ofList.symm, hWrite, hMoves⟩
        · cases hOk
  · intro hParts
    rcases hParts with
      ⟨next, after, hDrop, hWidth, hState, hRead, hNext,
        hWrite, hMoves⟩
    rw [hDrop]
    simp only [hWidth, if_true, bind_eq_ok_iff,
      mapM_readSymbol_eq_ok_iff, mapM_readMove_eq_ok_iff]
    refine ⟨r.read, hRead, r.write, hWrite, r.moves,
      hMoves, ?_⟩
    rw [hState, hNext, String.ofList_toList,
      String.ofList_toList]
    rfl

/-
  A rule is read exactly from the texts that are written for
  it, and if it fits the number of tapes.
-/
theorem readRule_eq_ok_iff
    {tapes : Nat}
    {row : Row}
    {r : Rule} :
    readRule tapes row = .ok r ↔
      row.texts = r.texts ∧ r.Fits tapes := by
  rw [readRule_eq_ok_iff_parts]
  constructor
  · intro hParts
    rcases hParts with
      ⟨next, after, hDrop, hWidth, hState, hRead, hNext,
        hWrite, hMoves⟩
    have hRest :
        row.rest =
          row.rest.take tapes ++
            next :: (after.take tapes ++ after.drop tapes) := by
      rw [List.take_append_drop, ← hDrop,
        List.take_append_drop]
    have hLength : row.rest.length = 3 * tapes + 1 := by
      exact Nat.succ.inj hWidth
    have hAfter : after.length = 2 * tapes := by
      have hDropped := congrArg List.length hDrop
      rw [List.length_drop, List.length_cons] at hDropped
      omega
    constructor
    · unfold Row.texts Row.fields Rule.texts
      rw [hRest]
      simp only [List.map_cons, List.map_append, hState,
        hRead, hNext, hWrite, hMoves]
    · have hReads := congrArg List.length hRead
      have hWrites := congrArg List.length hWrite
      have hCodes := congrArg List.length hMoves
      simp only [List.length_map, List.length_take,
        List.length_drop, length_symbolTexts,
        length_moveTexts] at hReads hWrites hCodes
      exact ⟨by omega, by omega, by omega⟩
  · intro hParts
    rcases hParts with ⟨hTexts, hFits⟩
    rcases List.cons_eq_cons.mp hTexts with
      ⟨hState, hRest⟩
    have hReads : (symbolTexts r.read).length = tapes := by
      exact (length_symbolTexts r.read).trans hFits.read
    have hWrites : (symbolTexts r.write).length = tapes := by
      exact (length_symbolTexts r.write).trans hFits.write
    have hDrop :
        (row.rest.drop tapes).map Field.text =
          r.nextState.toList ::
            (symbolTexts r.write ++ moveTexts r.moves) := by
      rw [List.map_drop, hRest, List.drop_left' hReads]
    have hRead :
        (row.rest.take tapes).map Field.text =
          symbolTexts r.read := by
      rw [List.map_take, hRest, List.take_left' hReads]
    have hWidth : row.width = 3 * tapes + 2 := by
      have hLength := congrArg List.length hTexts
      rw [Row.length_texts, hFits.length_texts]
        at hLength
      exact hLength
    rcases List.map_eq_cons_iff.mp hDrop with
      ⟨next, after, hParts, hNext, hAfter⟩
    refine ⟨next, after, hParts, hWidth, hState, hRead,
      hNext, ?_, ?_⟩
    · rw [List.map_take, hAfter, List.take_left' hWrites]
    · rw [List.map_drop, hAfter, List.drop_left' hWrites]

/- A record is taken if there is one. -/
theorem takeRow_eq_ok_iff
    {record : HeaderRecord}
    {rows more : List Row}
    {r : Row} :
    takeRow record rows = .ok (r, more) ↔
      rows = r :: more := by
  unfold takeRow
  cases rows with
  | nil =>
      constructor
      · intro hOk
        cases hOk
      · intro hRows
        cases hRows
  | cons q rows =>
      constructor
      · intro hOk
        cases hOk
        rfl
      · intro hRows
        cases hRows
        rfl

/- The rows of rules among the rows after the fifth. -/
def ruleRows
    (rows : List Row) : List Row :=
  rows.filter fun r => decide (¬ r.IsEmpty)

/- Empty rows are passed over. -/
theorem ruleRows_cons_of_isEmpty
    {row : Row}
    {rows : List Row}
    (hEmpty : row.IsEmpty) :
    ruleRows (row :: rows) = ruleRows rows := by
  simp [ruleRows, hEmpty]

/- Other rows are kept. -/
theorem ruleRows_cons_of_not_isEmpty
    {row : Row}
    {rows : List Row}
    (hRow : ¬ row.IsEmpty) :
    ruleRows (row :: rows) = row :: ruleRows rows := by
  simp [ruleRows, hRow]

/- A description is read from five rows and from the rules. -/
theorem ofRows_eq_ok_iff
    {header : Row}
    {rows : List Row}
    {d : Description} :
    ofRows header rows = .ok d ↔
      ∃ input states start accept more,
        rows = input :: states :: start :: accept :: more ∧
          readHeader header = .ok d.tapes ∧
          readStart start = .ok d.start ∧
          (ruleRows more).mapM (readRule d.tapes) =
            .ok d.rules ∧
          header.first.text = d.name.toList ∧
          input.first.text = d.input ∧
          states.names = d.states ∧
          accept.names = d.accept ∧
          d.mode = .overwrite := by
  unfold ofRows
  simp only [bind_eq_ok_iff, Prod.exists,
    takeRow_eq_ok_iff]
  constructor
  · intro hOk
    rcases hOk with
      ⟨tapes, hTapes, input, rows, hInput, states, rows',
        hStates, start, rows'', hStart, state, hState,
        accept, more, hAccept, rules, hRules, hEq⟩
    subst hAccept
    subst hStart
    subst hStates
    subst hInput
    cases hEq
    exact ⟨input, states, start, accept, more, rfl, hTapes,
      hState, hRules, String.toList_ofList.symm, rfl, rfl,
      rfl, rfl⟩
  · intro hParts
    rcases hParts with
      ⟨input, states, start, accept, more, hRows, hTapes,
        hStart, hRules, hName, hInput, hStates, hAccept,
        hMode⟩
    refine ⟨d.tapes, hTapes, input, _, hRows, states, _,
      rfl, start, _, rfl, d.start, hStart, accept, more,
      rfl, d.rules, hRules, ?_⟩
    rw [hName, String.ofList_toList, hInput, hStates,
      hAccept, ← hMode]
    rfl

end Description

end MultiTape
