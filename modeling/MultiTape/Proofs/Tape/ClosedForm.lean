import MultiTape.Tape.View
import MultiTape.Proofs.Tape.Indexed
import Mathlib.Data.List.Induction
import Mathlib.Order.Bounds.Basic

/-
  This file tells the cells and the head of a tape after any
  writes and movements without following them: from the places
  that the head has been at, counted from the start of the
  input, and from what was written there last.

  Key definitions include:
    * `Tape.Operation`
    * `Tape.operateAll`
    * `Tape.positions`
    * `Tape.lowest`
    * `Tape.rightmost`
    * `Tape.lastWritten?`
    * `Tape.symbolAt`
    * `Tape.Records`

  Main statements:
    * `Tape.lastWritten?_eq_some_iff`
    * `Tape.Records.operate`
    * `Tape.records_operateAll`
    * `Tape.kept_cells_span_the_way_of_the_head`
-/

namespace MultiTape

------------------------------------------------------------
-- Operations
------------------------------------------------------------

/- What may be done to a tape. -/
inductive Tape.Operation where
  | write (s : Symbol)
  | shift (d : Move)
  deriving DecidableEq, Repr

/- The change of the head's place. -/
def Tape.Operation.offset : Tape.Operation → Int
  | write _ => 0
  | shift d => d.offset

/-
  Do one operation on a row of cells, if the head is in range.
-/
def IndexedTape.operate?
    (t : IndexedTape) : Tape.Operation → Option IndexedTape
  | .write s => t.write? s
  | .shift d => some (t.shift d)

/- Do operations in order on a row of cells. -/
def IndexedTape.operateAll?
    (t : IndexedTape)
    (ops : List Tape.Operation) : Option IndexedTape :=
  ops.foldlM IndexedTape.operate? t

namespace Tape

/- Do one operation. -/
def operate
    (t : Tape) : Operation → Tape
  | .write s => t.write s
  | .shift d => t.shift d

/- Do operations in order. -/
def operateAll
    (t : Tape)
    (ops : List Operation) : Tape :=
  ops.foldl operate t

/- The last operation is done on what the others left. -/
theorem operateAll_concat
    (t : Tape)
    (ops : List Operation)
    (o : Operation) :
    t.operateAll (ops ++ [o]) = (t.operateAll ops).operate o := by
  simp [operateAll]

/- Operations on a tape are those on the row of its cells. -/
theorem operateAll?_indexed
    (t : Tape)
    (ops : List Operation) :
    t.indexed.operateAll? ops =
      some (t.operateAll ops).indexed := by
  unfold IndexedTape.operateAll? operateAll
  induction ops generalizing t with
  | nil => rfl
  | cons o ops ih =>
      have hFirst :
          t.indexed.operate? o = some (t.operate o).indexed := by
        cases o with
        | write s => exact t.write?_indexed s
        | shift d => exact congrArg some (t.shift_indexed d)
      rw [List.foldlM_cons, hFirst]
      exact ih (t.operate o)

------------------------------------------------------------
-- The Way Of The Head
------------------------------------------------------------

/- Where the head is after operations, if it starts at zero. -/
def position : List Operation → Int
  | [] => 0
  | o :: ops => o.offset + position ops

/- Where the head has been, from the start on. -/
def positions
    (ops : List Operation) : List Int :=
  (List.range (ops.length + 1)).map fun n =>
    position (ops.take n)

/- The lowest place that the head has been at. -/
def lowest
    (ops : List Operation) : Int :=
  (positions ops).foldl min 0

/- The highest place that the head has been at. -/
def highest
    (ops : List Operation) : Int :=
  (positions ops).foldl max 0

/-
  The highest place of all that the head has been at and that
  the input takes up. The empty input takes up one place.
-/
def rightmost
    (input : List Symbol)
    (ops : List Operation) : Int :=
  max (highest ops) ((max 1 input.length : Nat) - 1)

/-
  Later operations move the head from where earlier ones left
  it.
-/
theorem position_append
    (before after : List Operation) :
    position (before ++ after) =
      position before + position after := by
  induction before with
  | nil => simp [position]
  | cons o before ih =>
      rw [List.cons_append, position, position, ih,
        Int.add_assoc]

/- So does the last operation. -/
theorem position_concat
    (ops : List Operation)
    (o : Operation) :
    position (ops ++ [o]) = position ops + o.offset := by
  simp [position_append, position]

/- The last operation adds one place to those before it. -/
theorem positions_concat
    (ops : List Operation)
    (o : Operation) :
    positions (ops ++ [o]) =
      positions ops ++ [position (ops ++ [o])] := by
  have hBefore :
      ∀ n ∈ List.range (ops.length + 1),
        position ((ops ++ [o]).take n) =
          position (ops.take n) := by
    intro n hn
    rw [List.take_append_of_le_length]
    exact Nat.le_of_lt_succ (List.mem_range.mp hn)
  unfold positions
  rw [List.length_append, List.length_singleton,
    List.range_succ, List.map_append,
    List.map_congr_left hBefore, List.map_singleton,
    List.take_of_length_le (by simp)]

/- The lowest place is lower only if the last one is. -/
theorem lowest_concat
    (ops : List Operation)
    (o : Operation) :
    lowest (ops ++ [o]) =
      min (lowest ops) (position ops + o.offset) := by
  unfold lowest
  rw [positions_concat, List.foldl_append, position_concat]
  rfl

/- The highest place is higher only if the last one is. -/
theorem highest_concat
    (ops : List Operation)
    (o : Operation) :
    highest (ops ++ [o]) =
      max (highest ops) (position ops + o.offset) := by
  unfold highest
  rw [positions_concat, List.foldl_append, position_concat]
  rfl

/- So is it together with the places of the input. -/
theorem rightmost_concat
    (input : List Symbol)
    (ops : List Operation)
    (o : Operation) :
    rightmost input (ops ++ [o]) =
      max (rightmost input ops) (position ops + o.offset) := by
  unfold rightmost
  rw [highest_concat]
  omega

/-
  The places are those before the last operation and one more.
-/
theorem setOf_mem_positions_concat
    (ops : List Operation)
    (o : Operation) :
    {p | p ∈ positions (ops ++ [o])} =
      insert (position ops + o.offset)
        {p | p ∈ positions ops} := by
  ext p
  rw [Set.mem_ofPred_eq, positions_concat, List.mem_append,
    List.mem_singleton, position_concat, Or.comm]
  rfl

/-
  The lowest place is one of the places, and no other is
  lower.
-/
theorem isLeast_lowest
    (ops : List Operation) :
    IsLeast {p | p ∈ positions ops} (lowest ops) := by
  induction ops using List.reverseRecOn with
  | nil =>
      simp [positions, lowest, position, isLeast_singleton]
  | append_singleton ops o ih =>
      rw [setOf_mem_positions_concat, lowest_concat, min_comm]
      exact ih.insert _

/-
  The highest place is one of the places, and no other is
  higher.
-/
theorem isGreatest_highest
    (ops : List Operation) :
    IsGreatest {p | p ∈ positions ops} (highest ops) := by
  induction ops using List.reverseRecOn with
  | nil =>
      simp [positions, highest, position,
        isGreatest_singleton]
  | append_singleton ops o ih =>
      rw [setOf_mem_positions_concat, highest_concat, max_comm]
      exact ih.insert _

------------------------------------------------------------
-- What Was Written
------------------------------------------------------------

/-
  The symbol that was written last at a place. A movement makes
  all places that much nearer.
-/
def lastWritten? : List Operation → Int → Option Symbol
  | [], _ => none
  | .write s :: ops, i =>
      (lastWritten? ops i).or (if i = 0 then some s else none)
  | .shift d :: ops, i => lastWritten? ops (i - d.offset)

/-
  The symbol at a place: what was written there last, or else
  the input's, or else the blank.
-/
def symbolAt
    (input : List Symbol)
    (ops : List Operation)
    (i : Int) : Symbol :=
  (lastWritten? ops i).getD
    (if 0 ≤ i then
      input.getD i.toNat Symbol.blank
    else
      Symbol.blank)

/-
  What is written later counts before what is written earlier.
-/
theorem lastWritten?_append
    (before after : List Operation)
    (i : Int) :
    lastWritten? (before ++ after) i =
      (lastWritten? after (i - position before)).or
        (lastWritten? before i) := by
  induction before generalizing i with
  | nil => simp [lastWritten?, position]
  | cons o before ih =>
      cases o with
      | write s =>
          have hPlace :
              position (.write s :: before) = position before := by
            simp [position, Operation.offset]
          rw [List.cons_append, lastWritten?, lastWritten?, ih,
            hPlace, Option.or_assoc]
      | shift d =>
          have hPlace :
              i - position (.shift d :: before) =
                i - d.offset - position before := by
            simp only [position, Operation.offset]
            omega
          rw [List.cons_append, lastWritten?, lastWritten?, ih,
            hPlace]

/-
  A symbol was written last at a place exactly when it was
  written while the head was there and nothing was written
  there any more after that.
-/
theorem lastWritten?_eq_some_iff
    {ops : List Operation}
    {i : Int}
    {s : Symbol} :
    lastWritten? ops i = some s ↔
      ∃ before after,
        ops = before ++ .write s :: after ∧
          position before = i ∧
          lastWritten? after 0 = none := by
  constructor
  · intro hSome
    induction ops generalizing i with
    | nil => cases hSome
    | cons o ops ih =>
        cases o with
        | write s' =>
            rw [lastWritten?] at hSome
            rcases Option.or_eq_some_iff.mp hSome with
              hLater | ⟨hNone, hFirst⟩
            · rcases ih hLater with
                ⟨before, after, rfl, rfl, hAfter⟩
              refine
                ⟨.write s' :: before, after, rfl, ?_, hAfter⟩
              simp [position, Operation.offset]
            · split at hFirst
              · next hPlace =>
                  cases hFirst
                  subst hPlace
                  exact ⟨[], ops, rfl, rfl, hNone⟩
              · cases hFirst
        | shift d =>
            rw [lastWritten?] at hSome
            rcases ih hSome with
              ⟨before, after, rfl, hPlace, hAfter⟩
            refine
              ⟨.shift d :: before, after, rfl, ?_, hAfter⟩
            simp only [position, Operation.offset] at hPlace ⊢
            omega
  · rintro ⟨before, after, rfl, rfl, hAfter⟩
    rw [lastWritten?_append, Int.sub_self, lastWritten?, hAfter]
    rfl

/-
  Nothing was written at a place exactly when no operation
  wrote while the head was there.
-/
theorem lastWritten?_eq_none_iff
    {ops : List Operation}
    {i : Int} :
    lastWritten? ops i = none ↔
      ∀ before s after,
        ops = before ++ .write s :: after →
          position before ≠ i := by
  constructor
  · rintro hNone before s after rfl rfl
    rw [lastWritten?_append, Int.sub_self, lastWritten?] at hNone
    simp at hNone
  · intro hNever
    cases hLast : lastWritten? ops i with
    | none => rfl
    | some s =>
        rcases lastWritten?_eq_some_iff.mp hLast with
          ⟨before, after, hOps, hPlace, _hAfter⟩
        exact absurd hPlace (hNever before s after hOps)

------------------------------------------------------------
-- One Operation
------------------------------------------------------------

/-
  A movement takes a cell from one side of the head to the
  other. Where there is none to take, the side stays empty.
-/
theorem length_sides_operate
    (t : Tape)
    (o : Operation) :
    ((t.operate o).left.length : Int) =
        max (t.left.length + o.offset) 0 ∧
      ((t.operate o).right.length : Int) =
        max (t.right.length - o.offset) 0 := by
  rcases t with ⟨left, focus, right⟩
  cases o with
  | write s =>
      simp only [operate, write, Operation.offset]
      omega
  | shift d =>
      simp only [operate, Operation.offset]
      cases d with
      | stay =>
          simp only [shift, Move.offset]
          omega
      | left =>
          cases left with
          | nil =>
              simp only [shift, Move.offset, List.length_cons,
                List.length_nil]
              omega
          | cons s left =>
              simp only [shift, Move.offset, List.length_cons]
              omega
      | right =>
          cases right with
          | nil =>
              simp only [shift, Move.offset, List.length_cons,
                List.length_nil]
              omega
          | cons s right =>
              simp only [shift, Move.offset, List.length_cons]
              omega

/-
  A head that leaves the cells in front stays at their front.
-/
theorem head_operate
    (t : Tape)
    (o : Operation) :
    ((t.operate o).head : Int) = max (t.head + o.offset) 0 :=
  (t.length_sides_operate o).1

/-
  A cell is added on the side where the head leaves the cells.
-/
theorem size_operate
    (t : Tape)
    (o : Operation) :
    ((t.operate o).size : Int) =
      max (t.size : Int) (t.head + o.offset + 1) -
        min (t.head + o.offset) 0 := by
  have hSides := t.length_sides_operate o
  simp only [head, size]
  omega

/- The cells are the symbols around the head. -/
theorem getElem?_cells_of_lt_size
    {t : Tape}
    {n : Nat}
    (hInside : n < t.size) :
    t.cells[n]? = some (t.view (n - t.head)) := by
  have hPlace : (t.head : Int) + (n - t.head) = n := by
    omega
  have hCell : n < t.cells.length := by
    rw [t.length_cells]
    exact hInside
  rw [view_eq_getD, hPlace, if_pos (Int.natCast_nonneg n),
    Int.toNat_natCast, List.getD_eq_getElem?_getD,
    List.getElem?_eq_getElem hCell, Option.getD_some]

/-
  The cells of the tape reach from the lowest place up to the
  rightmost one, the head is where the operations have brought
  it, and every place has the symbol that it should have.
-/
structure Records
    (input : List Symbol)
    (ops : List Operation)
    (t : Tape) : Prop where
  head : (t.head : Int) = position ops - lowest ops
  size : (t.size : Int) = rightmost input ops - lowest ops + 1
  view : ∀ i, t.view (i - position ops) = symbolAt input ops i

/- In the beginning only the input is there. -/
theorem records_ofInput
    (input : List Symbol) :
    (ofInput input).Records input [] := by
  have hLow : lowest [] = 0 := rfl
  have hHigh : highest [] = 0 := rfl
  have hPlace : position [] = 0 := rfl
  constructor
  · rw [hLow, hPlace]
    cases input with
    | nil => rfl
    | cons s rest => rfl
  · rw [rightmost, hLow, hHigh]
    cases input with
    | nil => rfl
    | cons s rest =>
        simp only [ofInput, Tape.size, List.length_nil,
          List.length_cons]
        omega
  · intro i
    rw [hPlace, Int.sub_zero, view_ofInput]
    rfl

/-
  One more operation changes what is recorded as it changes the
  tape. Places are counted from the start of the input, so a
  cell that is added in front changes no place but the lowest.
-/
theorem Records.operate
    {input : List Symbol}
    {ops : List Operation}
    {t : Tape}
    (hTape : t.Records input ops)
    (o : Operation) :
    (t.operate o).Records input (ops ++ [o]) := by
  have hHead := hTape.head
  have hSize := hTape.size
  constructor
  · rw [head_operate, position_concat, lowest_concat]
    omega
  · rw [size_operate, rightmost_concat, lowest_concat]
    omega
  · intro i
    rw [position_concat, symbolAt, lastWritten?_append]
    cases o with
    | write s =>
        rw [Operation.offset, Int.add_zero, Tape.operate,
          view_write, hTape.view, lastWritten?, lastWritten?,
          Option.none_or]
        split
        · rfl
        · rfl
    | shift d =>
        have hPlace :
            i - (position ops + d.offset) + d.offset =
              i - position ops := by
          omega
        rw [Operation.offset, Tape.operate, view_shift, hPlace,
          hTape.view]
        rfl

/- Operations in order are recorded. -/
theorem records_operateAll
    (input : List Symbol)
    (ops : List Operation) :
    ((ofInput input).operateAll ops).Records input ops := by
  induction ops using List.reverseRecOn with
  | nil => exact records_ofInput input
  | append_singleton ops o ih =>
      rw [operateAll_concat]
      exact ih.operate o

/- The cell of a place, counted from the lowest one. -/
theorem Records.getElem?_cells
    {input : List Symbol}
    {ops : List Operation}
    {t : Tape}
    (hTape : t.Records input ops)
    {i : Int}
    (hLow : lowest ops ≤ i)
    (hHigh : i ≤ rightmost input ops) :
    t.cells[(i - lowest ops).toNat]? =
      some (symbolAt input ops i) := by
  have hHead := hTape.head
  have hSize := hTape.size
  have hInside : (i - lowest ops).toNat < t.size := by
    omega
  have hPlace :
      ((i - lowest ops).toNat : Int) - t.head =
        i - position ops := by
    omega
  rw [getElem?_cells_of_lt_size hInside, hPlace, hTape.view]

/- A movement adds a cell exactly if it leads to a new place. -/
theorem Records.length_cells_shift
    {input : List Symbol}
    {ops : List Operation}
    {t : Tape}
    (hTape : t.Records input ops)
    (d : Move) :
    (t.shift d).cells.length =
      if lowest ops ≤ position ops + d.offset ∧
          position ops + d.offset ≤ rightmost input ops then
        t.cells.length
      else
        t.cells.length + 1 := by
  have hHead := hTape.head
  have hSize := hTape.size
  have hShift := t.size_operate (.shift d)
  have hNear : -1 ≤ d.offset ∧ d.offset ≤ 1 := by
    cases d <;> decide
  have hInside := t.head_lt_size
  rw [length_cells, length_cells]
  simp only [Tape.operate, Operation.offset] at hShift
  split <;> omega

------------------------------------------------------------
-- Any Operations
------------------------------------------------------------

/-
  The tape of an input after any operations. Its cells reach
  from the lowest place that the head has been at up to the
  highest one, or to the end of the input. The head is where
  the movements have brought it, and every cell has what was
  written there last, or else the input's symbol, or else the
  blank. A row of cells with an index for the head gets the
  same, with all indices in range. A further movement adds at
  most one cell, and adds it exactly if it leads to a place
  outside of those that the cells reach over.
-/
theorem kept_cells_span_the_way_of_the_head
    (input : List Symbol)
    (ops : List Operation) :
    IsLeast {p | p ∈ positions ops} (lowest ops) ∧
      IsGreatest {p | p ∈ positions ops} (highest ops) ∧
      (((ofInput input).operateAll ops).cells.length : Int) =
        max (highest ops) ((max 1 input.length : Nat) - 1) -
          lowest ops + 1 ∧
      (((ofInput input).operateAll ops).head : Int) =
        position ops - lowest ops ∧
      (∀ i,
        lowest ops ≤ i →
          i ≤ max (highest ops) ((max 1 input.length : Nat) - 1) →
          ((ofInput input).operateAll ops).cells[
              (i - lowest ops).toNat]? =
            some
              ((lastWritten? ops i).getD
                (if 0 ≤ i then
                  input.getD i.toNat Symbol.blank
                else
                  Symbol.blank))) ∧
      (∀ i s,
        lastWritten? ops i = some s ↔
          ∃ before after,
            ops = before ++ .write s :: after ∧
              position before = i ∧
              ∀ middle s' rest,
                after = middle ++ .write s' :: rest →
                  position (before ++ .write s :: middle) ≠ i) ∧
      ((ofInput input).operateAll ops).head <
        ((ofInput input).operateAll ops).cells.length ∧
      (IndexedTape.ofInput input).operateAll? ops =
        some
          ⟨((ofInput input).operateAll ops).cells,
            ((ofInput input).operateAll ops).head⟩ ∧
      ∀ d,
        (((ofInput input).operateAll ops).shift d).cells.length =
          if lowest ops ≤ position ops + d.offset ∧
              position ops + d.offset ≤
                max (highest ops)
                  ((max 1 input.length : Nat) - 1) then
            ((ofInput input).operateAll ops).cells.length
          else
            ((ofInput input).operateAll ops).cells.length + 1 := by
  have hTape := records_operateAll input ops
  refine
    ⟨isLeast_lowest ops, isGreatest_highest ops, ?_, hTape.head,
      ?_, ?_, head_lt_length_cells _, ?_, ?_⟩
  · rw [length_cells]
    exact hTape.size
  · intro i hLow hHigh
    exact hTape.getElem?_cells hLow hHigh
  · intro i s
    have hBack :
        ∀ before middle,
          position before = i →
            (position (before ++ .write s :: middle) ≠ i ↔
              position middle ≠ 0) := by
      rintro before middle rfl
      have hWrite :
          position (.write s :: middle) = position middle := by
        simp [position, Operation.offset]
      rw [position_append, hWrite]
      omega
    rw [lastWritten?_eq_some_iff]
    refine exists₂_congr fun before after => ?_
    refine and_congr_right' (and_congr_right fun hPlace => ?_)
    simp only [lastWritten?_eq_none_iff, hBack before _ hPlace]
  · rw [← indexed_ofInput]
    exact operateAll?_indexed (ofInput input) ops
  · exact hTape.length_cells_shift

/- To the left of the input, over its end and back again. -/
def weaving : List Operation :=
  [.shift .left, .write 'x', .shift .right, .shift .right,
    .shift .right, .write 'y', .shift .left, .shift .left,
    .shift .left, .write 'z']

/-
  What was written twice in front of the input is there once,
  and a movement further to the left adds a cell.
-/
theorem kept_cells_after_weaving :
    lowest weaving = -1 ∧
      highest weaving = 2 ∧
      ((ofInput ['a', 'b']).operateAll weaving).cells[
          (-1 - lowest weaving).toNat]? =
        some 'z' ∧
      ((ofInput ['a', 'b']).operateAll weaving).cells[
          (1 - lowest weaving).toNat]? =
        some 'b' ∧
      (((ofInput ['a', 'b']).operateAll weaving).shift
          .left).cells.length =
        5 := by
  rcases kept_cells_span_the_way_of_the_head
      ['a', 'b'] weaving with
    ⟨_hLow, _hHigh, _hLength, _hHead, hCells, _hWritten, _hIn,
      _hRow, hShift⟩
  refine ⟨rfl, rfl, ?_, ?_, ?_⟩
  · exact hCells (-1) (by decide) (by decide)
  · exact hCells 1 (by decide) (by decide)
  · exact hShift .left

end Tape

end MultiTape
