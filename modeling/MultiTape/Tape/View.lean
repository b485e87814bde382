import MultiTape.Tape.Basic

/-
  This file gives the meaning of a tape: the symbol at every
  integer distance from the head, blank outside the kept
  cells. Each operation is described by what it does to it.

  Key definitions include:
    * `Tape.view`

  Main statements:
    * `Tape.view_ofInput`
    * `Tape.view_write`
    * `Tape.view_shift`
    * `Tape.view_eq_getD`
-/

namespace MultiTape

namespace Tape

/- The symbol at a distance from the head. -/
def view
    (t : Tape) : Int → Symbol
  | .ofNat 0 => t.focus
  | .ofNat (n + 1) => t.right.getD n Symbol.blank
  | .negSucc n => t.left.getD n Symbol.blank

/- The head reads the symbol at distance zero. -/
@[simp]
theorem view_zero
    (t : Tape) :
    t.view 0 = t.read :=
  rfl

/- Nothing but blanks is on a blank tape. -/
@[simp]
theorem view_blank
    (i : Int) :
    blank.view i = Symbol.blank := by
  match i with
  | .ofNat 0 => rfl
  | .ofNat (_ + 1) => rfl
  | .negSucc _ => rfl

/-
  The input stands from the head on to the right, and all
  other cells are blank.
-/
theorem view_ofInput
    (input : List Symbol)
    (i : Int) :
    (ofInput input).view i =
      if 0 ≤ i then input.getD i.toNat Symbol.blank else Symbol.blank := by
  cases input with
  | nil => simp [ofInput]
  | cons s rest =>
      match i with
      | .ofNat 0 => rfl
      | .ofNat (n + 1) => rfl
      | .negSucc n => rfl

/- Writing changes the symbol at distance zero only. -/
theorem view_write
    (t : Tape)
    (s : Symbol)
    (i : Int) :
    (t.write s).view i = if i = 0 then s else t.view i := by
  match i with
  | .ofNat 0 => rfl
  | .ofNat (n + 1) =>
      have hNe : Int.ofNat (n + 1) ≠ 0 := by
        simp only [Int.ofNat_eq_natCast]
        omega
      rw [if_neg hNe]
      rfl
  | .negSucc n => rfl

private theorem view_shift_left
    (t : Tape)
    (i : Int) :
    (t.shift .left).view i = t.view (i - 1) := by
  obtain ⟨left, focus, right⟩ := t
  match i with
  | .ofNat 0 => cases left <;> rfl
  | .ofNat 1 => cases left <;> rfl
  | .ofNat (n + 2) =>
      have hShift : Int.ofNat (n + 2) - 1 = Int.ofNat (n + 1) := by
        simp only [Int.ofNat_eq_natCast]
        omega
      rw [hShift]
      cases left <;> rfl
  | .negSucc n =>
      have hShift : Int.negSucc n - 1 = Int.negSucc (n + 1) := by
        omega
      rw [hShift]
      cases left <;> rfl

private theorem view_shift_right
    (t : Tape)
    (i : Int) :
    (t.shift .right).view i = t.view (i + 1) := by
  obtain ⟨left, focus, right⟩ := t
  match i with
  | .ofNat 0 => cases right <;> rfl
  | .ofNat (n + 1) => cases right <;> rfl
  | .negSucc 0 => cases right <;> rfl
  | .negSucc (n + 1) =>
      have hShift : Int.negSucc (n + 1) + 1 = Int.negSucc n := by
        omega
      rw [hShift]
      cases right <;> rfl

/- Moving the head re-centres the tape. -/
theorem view_shift
    (t : Tape)
    (m : Move)
    (i : Int) :
    (t.shift m).view i = t.view (i + m.offset) := by
  cases m with
  | left => exact view_shift_left t i
  | right => exact view_shift_right t i
  | stay => simp [shift, Move.offset]

/-
  The view in terms of the kept cells: the cell that many places
  from the head, blank where there is none.
-/
theorem view_eq_getD
    (t : Tape)
    (i : Int) :
    t.view i =
      if 0 ≤ t.head + i then
        t.cells.getD (t.head + i).toNat Symbol.blank
      else
        Symbol.blank := by
  obtain ⟨left, focus, right⟩ := t
  match i with
  | .ofNat 0 => simp [view, head, cells]
  | .ofNat (n + 1) =>
      have hPos : (0 : Int) ≤ left.length + Int.ofNat (n + 1) := by
        simp only [Int.ofNat_eq_natCast]
        omega
      have hIndex : ((left.length : Int) + Int.ofNat (n + 1)).toNat = left.length + (n + 1) := by
        simp only [Int.ofNat_eq_natCast]
        omega
      simp only [view, head, cells, if_pos hPos, hIndex, List.getD_eq_getElem?_getD]
      rw [List.getElem?_append_right (by simp), List.length_reverse, Nat.add_sub_cancel_left]
      rfl
  | .negSucc n =>
      by_cases hn : n < left.length
      · have hPos : (0 : Int) ≤ left.length + Int.negSucc n := by
          omega
        have hIndex : ((left.length : Int) + Int.negSucc n).toNat = left.length - 1 - n := by
          omega
        have hLess : left.length - 1 - n < left.reverse.length := by
          rw [List.length_reverse]
          omega
        have hBack : left.length - 1 - (left.length - 1 - n) = n := by
          omega
        simp only [view, head, cells, if_pos hPos, hIndex, List.getD_eq_getElem?_getD]
        rw [List.getElem?_append_left hLess, List.getElem?_reverse (by omega), hBack]
      · have hNeg : ¬ (0 : Int) ≤ left.length + Int.negSucc n := by
          omega
        simp only [view, head, if_neg hNeg, List.getD_eq_getElem?_getD]
        rw [List.getElem?_eq_none (by omega)]
        rfl

end Tape

end MultiTape
