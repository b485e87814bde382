import MultiTape.Symbol
import MultiTape.Move

/-
  This file defines a tape that is infinite in both directions,
  of which only the cells met so far are kept: the cell under
  the head, the cells to its left (nearest first) and the cells
  to its right (nearest first). The head therefore always
  stands on a cell.

  Key definitions include:
    * `Tape`
    * `Tape.blank`
    * `Tape.ofInput`
    * `Tape.read`
    * `Tape.write`
    * `Tape.shift`
    * `Tape.cells`
    * `Tape.head`
-/

namespace MultiTape

------------------------------------------------------------
-- Tapes
------------------------------------------------------------

/- The kept cells of a tape, seen from the head. -/
structure Tape where
  left : List Symbol
  focus : Symbol
  right : List Symbol
  deriving DecidableEq, Repr

namespace Tape

/- A tape of which a single blank cell is kept. -/
def blank : Tape :=
  ⟨[], Symbol.blank, []⟩

/-
  A tape that holds the input, with the head on its first
  symbol. The empty input leaves a single blank cell.
-/
def ofInput : List Symbol → Tape
  | [] => blank
  | s :: rest => ⟨[], s, rest⟩

/- The symbol under the head. -/
def read
    (t : Tape) : Symbol :=
  t.focus

/- Replace the symbol under the head. -/
def write
    (t : Tape)
    (s : Symbol) : Tape :=
  { t with focus := s }

/-
  Move the head by one cell. A head that leaves the kept cells
  adds one blank cell on its side.
-/
def shift
    (t : Tape) : Move → Tape
  | .stay => t
  | .left =>
      match t.left with
      | [] => ⟨[], Symbol.blank, t.focus :: t.right⟩
      | s :: rest => ⟨rest, s, t.focus :: t.right⟩
  | .right =>
      match t.right with
      | [] => ⟨t.focus :: t.left, Symbol.blank, []⟩
      | s :: rest => ⟨t.focus :: t.left, s, rest⟩

------------------------------------------------------------
-- Kept cells
------------------------------------------------------------

/- The kept cells from left to right. -/
def cells
    (t : Tape) : List Symbol :=
  t.left.reverse ++ t.focus :: t.right

/- The index of the head among the kept cells. -/
def head
    (t : Tape) : Nat :=
  t.left.length

/- The number of kept cells. -/
def size
    (t : Tape) : Nat :=
  t.left.length + 1 + t.right.length

/- The size counts the cells. -/
theorem length_cells
    (t : Tape) :
    t.cells.length = t.size := by
  simp [cells, size]
  omega

/- The head stands on a kept cell. -/
theorem head_lt_size
    (t : Tape) :
    t.head < t.size := by
  simp [head, size]
  omega

/- The head stands on the symbol that is read. -/
theorem cells_getElem?_head
    (t : Tape) :
    t.cells[t.head]? = some t.read := by
  simp [cells, head, read]

/- What was written is read. -/
@[simp]
theorem read_write
    (t : Tape)
    (s : Symbol) :
    (t.write s).read = s :=
  rfl

/- Writing keeps the number of cells. -/
@[simp]
theorem size_write
    (t : Tape)
    (s : Symbol) :
    (t.write s).size = t.size :=
  rfl

/- A movement adds at most one cell. -/
theorem size_shift_le
    (t : Tape)
    (m : Move) :
    (t.shift m).size ≤ t.size + 1 := by
  obtain ⟨left, focus, right⟩ := t
  cases m with
  | stay => exact Nat.le_succ _
  | left => cases left <;> simp [shift, size] <;> omega
  | right => cases right <;> simp [shift, size] <;> omega

/- A tape is given by its cells and the place of its head. -/
theorem ext_cells
    {t u : Tape}
    (hCells : t.cells = u.cells)
    (hHead : t.head = u.head) :
    t = u := by
  have hLength : t.left.reverse.length = u.left.reverse.length := by
    simpa [head] using hHead
  obtain ⟨hLeft, hRest⟩ := List.append_inj hCells hLength
  cases t
  cases u
  simp_all

end Tape

end MultiTape
