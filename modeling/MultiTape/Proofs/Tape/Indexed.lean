import MultiTape.Machine.Configuration

/-
  This file keeps a tape as a row of cells with the index of
  the head, and has every access to the row checked. A tape
  that is kept as seen from its head is such a row, each
  operation on it is the operation on the row, and no access
  is ever out of range.

  Key definitions include:
    * `IndexedTape`
    * `IndexedTape.read?`
    * `IndexedTape.write?`
    * `IndexedTape.shift`
    * `Tape.indexed`

  Main statements:
    * `Tape.read?_indexed`
    * `Tape.write?_indexed`
    * `Tape.shift_indexed`
-/

namespace MultiTape

------------------------------------------------------------
-- Rows Of Cells
------------------------------------------------------------

/- A row of cells and the index of the head. -/
structure IndexedTape where
  cells : List Symbol
  head : Nat
  deriving DecidableEq, Repr

namespace IndexedTape

/- A row with one blank cell. -/
def blank : IndexedTape :=
  ⟨[Symbol.blank], 0⟩

/- A row that holds the input, or a blank if there is none. -/
def ofInput
    (input : List Symbol) : IndexedTape :=
  ⟨if input = [] then [Symbol.blank] else input, 0⟩

/- The symbol at the index of the head, if it is in range. -/
def read?
    (t : IndexedTape) : Option Symbol :=
  t.cells[t.head]?

/-
  Replace the symbol at the index of the head, if it is in
  range.
-/
def write?
    (t : IndexedTape)
    (s : Symbol) : Option IndexedTape :=
  if t.head < t.cells.length then
    some { t with cells := t.cells.set t.head s }
  else
    none

/-
  Move the head. A cell that is added in front takes the index
  of the head; a cell that is added at the end takes the index
  after all others.
-/
def shift
    (t : IndexedTape)
    (d : Move) : IndexedTape :=
  let place : Int := t.head + d.offset
  if place < 0 then
    { t with cells := Symbol.blank :: t.cells }
  else if t.cells.length ≤ place.toNat then
    ⟨t.cells ++ [Symbol.blank], place.toNat⟩
  else
    { t with head := place.toNat }

/- The head moves to a cell of the row. -/
theorem shift_of_lt
    {t : IndexedTape}
    {d : Move}
    {n : Nat}
    (hPlace : (t.head : Int) + d.offset = n)
    (hInside : n < t.cells.length) :
    t.shift d = { t with head := n } := by
  have hRight : ¬ (n : Int) < 0 := by
    omega
  have hLeft : ¬ t.cells.length ≤ n := by
    omega
  simp [shift, hPlace, hRight, hLeft]

/- The head moves over the end of the row. -/
theorem shift_of_le
    {t : IndexedTape}
    {d : Move}
    {n : Nat}
    (hPlace : (t.head : Int) + d.offset = n)
    (hOutside : t.cells.length ≤ n) :
    t.shift d = ⟨t.cells ++ [Symbol.blank], n⟩ := by
  have hRight : ¬ (n : Int) < 0 := by
    omega
  simp [shift, hPlace, hRight, hOutside]

/- The head moves over the front of the row. -/
theorem shift_of_neg
    {t : IndexedTape}
    {d : Move}
    (hPlace : (t.head : Int) + d.offset < 0) :
    t.shift d = { t with cells := Symbol.blank :: t.cells } := by
  simp [shift, hPlace]

/-
  Write a symbol, if the head is in range, and move the head.
-/
def act?
    (t : IndexedTape)
    (s : Symbol)
    (d : Move) : Option IndexedTape :=
  (t.write? s).map fun written => written.shift d

end IndexedTape

------------------------------------------------------------
-- Tapes As Rows
------------------------------------------------------------

namespace Tape

/- The kept cells as a row, with the index of the head. -/
def indexed
    (t : Tape) : IndexedTape :=
  ⟨t.cells, t.head⟩

/- The index of the head is in range. -/
theorem head_lt_length_cells
    (t : Tape) :
    t.head < t.cells.length := by
  rw [t.length_cells]
  exact t.head_lt_size

/- A blank tape is a row with one blank cell. -/
@[simp]
theorem indexed_blank :
    blank.indexed = IndexedTape.blank :=
  rfl

/- The tape of an input is the row of it. -/
@[simp]
theorem indexed_ofInput
    (input : List Symbol) :
    (ofInput input).indexed = IndexedTape.ofInput input := by
  cases input with
  | nil => rfl
  | cons s rest => rfl

/- What is under the head is read at its index. -/
@[simp]
theorem read?_indexed
    (t : Tape) :
    t.indexed.read? = some t.read :=
  t.cells_getElem?_head

/- What is written under the head is written at its index. -/
@[simp]
theorem write?_indexed
    (t : Tape)
    (s : Symbol) :
    t.indexed.write? s = some (t.write s).indexed := by
  have hCells :
      t.cells.set t.head s = (t.write s).cells := by
    simp [cells, head, write]
  unfold IndexedTape.write? indexed
  rw [if_pos t.head_lt_length_cells, hCells]
  rfl

/-
  A head that moves over the kept cells moves along the row. It
  adds a cell exactly where it has come to the end of them.
-/
theorem shift_indexed
    (t : Tape)
    (d : Move) :
    t.indexed.shift d = (t.shift d).indexed := by
  rcases t with ⟨left, focus, right⟩
  cases d with
  | stay =>
      have hInside :=
        head_lt_length_cells ⟨left, focus, right⟩
      exact IndexedTape.shift_of_lt (Int.add_zero _) hInside
  | left =>
      cases left with
      | nil =>
          rw [IndexedTape.shift_of_neg]
          · simp [indexed, shift, cells, head]
          · simp [indexed, head, Move.offset]
      | cons s left =>
          rw [IndexedTape.shift_of_lt (n := left.length)]
          · simp [indexed, shift, cells, head]
          · simp only [indexed, head, Move.offset,
              List.length_cons]
            omega
          · simp [indexed, cells]
  | right =>
      cases right with
      | nil =>
          rw [IndexedTape.shift_of_le (n := left.length + 1)]
          · simp [indexed, shift, cells, head]
          · simp [indexed, head, Move.offset]
          · simp [indexed, cells]
      | cons s right =>
          rw [IndexedTape.shift_of_lt (n := left.length + 1)]
          · simp [indexed, shift, cells, head]
          · simp [indexed, head, Move.offset]
          · simp [indexed, cells]

/- A symbol is written and the head moved as on the row. -/
@[simp]
theorem act?_indexed
    (t : Tape)
    (s : Symbol)
    (d : Move) :
    t.indexed.act? s d = some (t.act s d).indexed := by
  unfold IndexedTape.act?
  rw [write?_indexed, Option.map_some, shift_indexed]
  rfl

end Tape

end MultiTape
