import MultiTape.Machine.Transcript
import MultiTape.Proofs.Machine.Reachability

/-
  This file finds the places of symbols and carets in the text
  of a step. The line of a tape begins with a label that grows
  with the number of the tape, and the line below it with a
  margin that does not, so the caret is under the head on the
  first ten tapes only.

  Key definitions include:
    * `Transcript.stepLines`
    * `Transcript.label`
    * `Transcript.cellColumn`

  Main statements:
    * `Transcript.toList_spaced`
    * `Transcript.getElem?_cellsLine`
    * `Transcript.getElem?_caretLine_eq_caret_iff`
    * `Transcript.splitOn_step`
    * `Transcript.caret_under_head_iff_one_digit`
-/

namespace MultiTape

namespace Transcript

------------------------------------------------------------
-- Spaced Characters
------------------------------------------------------------

/- Between each two characters there is one space. -/
theorem toList_spaced
    (cs : List Char) :
    (spaced cs).toList = cs.intersperse ' ' := by
  induction cs with
  | nil => rfl
  | cons c cs ih =>
      cases cs with
      | nil => simp [spaced]
      | cons d cs =>
          have hSplit :
              spaced (c :: d :: cs) =
                c.toString ++ " " ++ spaced (d :: cs) :=
            String.intercalate_cons_cons
          rw [hSplit, String.toList_append,
            String.toList_append, ih]
          simp

/- A character stands at twice its place in the list. -/
theorem getElem?_spaced
    (cs : List Char)
    (i : Nat) :
    (spaced cs).toList[2 * i]? = cs[i]? := by
  rw [toList_spaced]
  exact List.getElem?_intersperse_two_mul

/- At all other places there are spaces. -/
theorem getElem?_spaced_cases
    {cs : List Char}
    {n : Nat}
    {c : Char}
    (hSome : (spaced cs).toList[n]? = some c) :
    (∃ i, n = 2 * i ∧ cs[i]? = some c) ∨ c = ' ' := by
  rcases Nat.mod_two_eq_zero_or_one n with hEven | hOdd
  · have hTwice : n = 2 * (n / 2) := by
      omega
    rw [hTwice, getElem?_spaced] at hSome
    exact Or.inl ⟨n / 2, hTwice, hSome⟩
  · have hTwice : n = 2 * (n / 2) + 1 := by
      omega
    rw [hTwice, toList_spaced] at hSome
    rcases List.getElem?_eq_some_iff.mp hSome with
      ⟨hLess, _hGet⟩
    rw [List.length_intersperse] at hLess
    rw [List.getElem?_intersperse_two_mul_add_one
      (by omega)] at hSome
    exact Or.inr (Option.some.inj hSome).symm

/- Spacing brings in no other character than the space. -/
theorem mem_of_mem_spaced
    {cs : List Char}
    {c : Char}
    (hMem : c ∈ (spaced cs).toList)
    (hSpace : c ≠ ' ') :
    c ∈ cs := by
  rcases List.getElem?_of_mem hMem with ⟨n, hSome⟩
  rcases getElem?_spaced_cases hSome with
    ⟨i, _hn, hPlace⟩ | hEq
  · exact List.mem_of_getElem? hPlace
  · exact absurd hEq hSpace

------------------------------------------------------------
-- The Lines Of A Tape
------------------------------------------------------------

/- What stands before the cells of a tape. -/
def label
    (index : Nat) : String :=
  s!"Tape {index}: "

/- The line with the cells of a tape. -/
def cellsLine
    (index : Nat)
    (t : Tape) : String :=
  label index ++ spaced t.cells

/- The line with the caret of a tape. -/
def caretLine
    (t : Tape) : String :=
  "        " ++ spaced (pointer t)

/- The place of a cell in the line of its tape. -/
def cellColumn
    (index cell : Nat) : Nat :=
  (label index).length + 2 * cell

/- The characters of a label. -/
theorem toList_label
    (index : Nat) :
    (label index).toList =
      "Tape ".toList ++ Nat.toDigits 10 index ++
        ": ".toList := by
  unfold label
  rw [String.toList_append, String.toList_append]
  congr 2
  exact Nat.toList_repr

/- The label is longer by one for every digit after the first. -/
theorem length_label
    (index : Nat) :
    (label index).length =
      7 + (Nat.toDigits 10 index).length := by
  have hBefore : "Tape ".toList.length = 5 := rfl
  have hAfter : ": ".toList.length = 2 := rfl
  rw [← String.length_toList, toList_label,
    List.length_append, List.length_append]
  omega

/- The symbols of a tape stand in the columns of their cells. -/
theorem getElem?_cellsLine
    (index : Nat)
    (t : Tape)
    (cell : Nat) :
    (cellsLine index t).toList[cellColumn index cell]? =
      t.cells[cell]? := by
  unfold cellsLine cellColumn
  rw [String.toList_append, ← String.length_toList,
    List.getElem?_append_right (Nat.le_add_right _ _),
    Nat.add_sub_cancel_left, getElem?_spaced]

/- The pointer has its caret at the place of the head. -/
theorem getElem?_pointer_eq_caret_iff
    {t : Tape}
    {i : Nat} :
    (pointer t)[i]? = some '^' ↔ i = t.head := by
  have hLength :
      (List.replicate t.left.length ' ').length = t.head :=
    List.length_replicate
  unfold pointer
  constructor
  · intro hCaret
    rcases Nat.lt_trichotomy i t.head with
      hLess | hEq | hGreater
    · rw [List.getElem?_append_left (hLength ▸ hLess)]
        at hCaret
      have hMem := List.mem_of_getElem? hCaret
      exact absurd (List.eq_of_mem_replicate hMem) (by decide)
    · exact hEq
    · rw [List.getElem?_append_right
        (hLength ▸ Nat.le_of_lt hGreater), hLength] at hCaret
      rcases Nat.exists_eq_add_of_lt hGreater with ⟨k, rfl⟩
      have hRest : t.head + k + 1 - t.head = k + 1 := by
        omega
      rw [hRest, List.getElem?_cons_succ] at hCaret
      have hMem := List.mem_of_getElem? hCaret
      exact absurd (List.eq_of_mem_replicate hMem) (by decide)
  · rintro rfl
    rw [List.getElem?_append_right (Nat.le_of_eq hLength),
      hLength, Nat.sub_self]
    rfl

/-
  The line of the caret has a margin of eight columns, and two
  columns for each cell before the head.
-/
theorem getElem?_caretLine_eq_caret_iff
    {t : Tape}
    {n : Nat} :
    (caretLine t).toList[n]? = some '^' ↔
      n = 8 + 2 * t.head := by
  unfold caretLine
  rw [String.toList_append]
  constructor
  · intro hCaret
    by_cases hMargin : n < 8
    · rw [List.getElem?_append_left hMargin] at hCaret
      have hMem := List.mem_of_getElem? hCaret
      exact absurd hMem (by decide)
    · rw [List.getElem?_append_right
        (Nat.le_of_not_lt hMargin)] at hCaret
      -- The caret is none of the spaces that were put between.
      rcases getElem?_spaced_cases hCaret with
        ⟨i, hPlace, hPointer⟩ | hSpace
      · have hHead :=
          getElem?_pointer_eq_caret_iff.mp hPointer
        have hEight : "        ".toList.length = 8 := rfl
        omega
      · exact absurd hSpace (by decide)
  · rintro rfl
    rw [List.getElem?_append_right (Nat.le_add_right 8 _)]
    have hRest :
        8 + 2 * t.head - "        ".toList.length =
          2 * t.head :=
      Nat.add_sub_cancel_left 8 _
    rw [hRest, getElem?_spaced]
    exact getElem?_pointer_eq_caret_iff.mpr rfl

------------------------------------------------------------
-- The Lines Of A Step
------------------------------------------------------------

/- The lines that a step is written in. -/
def stepLines
    (s : Step)
    (c : Configuration) : List String :=
  let index := s.index
  let next := s.nextState
  [separator, s!"Step {index}", s!"Next State: {next}"] ++
    tapesLines 0 c.tapes

/- A step is written in these lines. -/
theorem step_eq_intercalate
    (s : Step)
    (c : Configuration) :
    step s c = "\n".intercalate (stepLines s c) :=
  rfl

/- Each tape has two lines, in the order of the tapes. -/
theorem getElem?_tapesLines
    {ts : List Tape}
    {t : Tape}
    {i : Nat}
    (hTape : ts[i]? = some t)
    (first : Nat) :
    (tapesLines first ts)[2 * i]? =
        some (cellsLine (first + i) t) ∧
      (tapesLines first ts)[2 * i + 1]? =
        some (caretLine t) := by
  induction ts generalizing i first with
  | nil => cases hTape
  | cons u us ih =>
      cases i with
      | zero =>
          cases hTape
          exact ⟨rfl, rfl⟩
      | succ i =>
          have hRest := ih hTape (first + 1)
          rw [Nat.add_right_comm, Nat.add_assoc] at hRest
          exact hRest

/- The lines of tapes are those of each of them. -/
theorem exists_of_mem_tapesLines
    {ts : List Tape}
    {first : Nat}
    {line : String}
    (hMem : line ∈ tapesLines first ts) :
    ∃ t ∈ ts, ∃ i,
      line = cellsLine i t ∨ line = caretLine t := by
  induction ts generalizing first with
  | nil => cases hMem
  | cons u us ih =>
      rcases List.mem_append.mp hMem with hHere | hRest
      · refine ⟨u, List.mem_cons_self, first, ?_⟩
        rcases List.mem_cons.mp hHere with hCells | hCaret
        · exact Or.inl hCells
        · exact Or.inr (List.mem_singleton.mp hCaret)
      · rcases ih hRest with ⟨t, hTape, i, hLine⟩
        exact ⟨t, List.mem_cons_of_mem u hTape, i, hLine⟩

/- The lines of a tape come after three others. -/
theorem getElem?_stepLines
    {c : Configuration}
    {i : Nat}
    {t : Tape}
    (hTape : c.tapes[i]? = some t)
    (s : Step) :
    (stepLines s c)[3 + 2 * i]? = some (cellsLine i t) ∧
      (stepLines s c)[3 + 2 * i + 1]? =
        some (caretLine t) := by
  have hLines := getElem?_tapesLines hTape 0
  rw [Nat.zero_add] at hLines
  have hFirst :
      ∀ n,
        (stepLines s c)[3 + n]? =
          (tapesLines 0 c.tapes)[n]? := by
    intro n
    rw [Nat.add_comm]
    rfl
  rw [Nat.add_assoc, hFirst, hFirst]
  exact hLines

------------------------------------------------------------
-- Line Ends
------------------------------------------------------------

/- A numeral has no line end. -/
theorem newline_not_mem_toDigits
    (n : Nat) :
    '\n' ∉ Nat.toDigits 10 n := by
  intro hMem
  have hDigit :=
    Nat.isDigit_of_mem_toDigits (by decide) (by decide) hMem
  exact absurd hDigit (by decide)

/- The line of a tape ends where its cells do not. -/
theorem newline_not_mem_cellsLine
    {t : Tape}
    (hCells : '\n' ∉ t.cells)
    (index : Nat) :
    '\n' ∉ (cellsLine index t).toList := by
  unfold cellsLine
  rw [String.toList_append, toList_label]
  simp only [List.mem_append, not_or]
  refine ⟨⟨⟨by decide, ?_⟩, by decide⟩, ?_⟩
  · exact newline_not_mem_toDigits index
  · intro hMem
    exact hCells (mem_of_mem_spaced hMem (by decide))

/- The line of a caret has no line end. -/
theorem newline_not_mem_caretLine
    (t : Tape) :
    '\n' ∉ (caretLine t).toList := by
  unfold caretLine
  rw [String.toList_append]
  simp only [List.mem_append, not_or]
  refine ⟨by decide, ?_⟩
  intro hMem
  have hPointer := mem_of_mem_spaced hMem (by decide)
  simp [pointer] at hPointer

/- No line of a step has a line end, if no name or cell has one. -/
theorem newline_not_mem_of_mem_stepLines
    {s : Step}
    {c : Configuration}
    {line : String}
    (hState : '\n' ∉ s.nextState.toList)
    (hCells : ∀ t ∈ c.tapes, '\n' ∉ t.cells)
    (hLine : line ∈ stepLines s c) :
    '\n' ∉ line.toList := by
  rcases List.mem_append.mp hLine with hHead | hTapes
  · simp only [List.mem_cons, List.not_mem_nil, or_false]
      at hHead
    rcases hHead with rfl | rfl | rfl
    · decide
    · rw [String.toList_append, List.mem_append, not_or]
      have hNumeral :
          (toString s.index).toList =
            Nat.toDigits 10 s.index :=
        Nat.toList_repr
      rw [hNumeral]
      exact ⟨by decide, newline_not_mem_toDigits s.index⟩
    · rw [String.toList_append, List.mem_append, not_or]
      exact ⟨by decide, hState⟩
  · rcases exists_of_mem_tapesLines hTapes with
      ⟨t, hTape, i, rfl | rfl⟩
    · exact newline_not_mem_cellsLine (hCells t hTape) i
    · exact newline_not_mem_caretLine t

/-
  The text of a step is read back line by line, if no line end
  is in the name of a state or in a cell.
-/
theorem splitOn_step
    {s : Step}
    {c : Configuration}
    (hState : '\n' ∉ s.nextState.toList)
    (hCells : ∀ t ∈ c.tapes, '\n' ∉ t.cells) :
    (step s c).toList.splitOn '\n' =
      (stepLines s c).map String.toList := by
  rw [step_eq_intercalate, String.toList_intercalate]
  apply List.splitOn_intercalate
  · intro chars hChars
    rcases List.mem_map.mp hChars with ⟨line, hLine, rfl⟩
    exact
      newline_not_mem_of_mem_stepLines hState hCells hLine
  · simp [stepLines]

------------------------------------------------------------
-- The Caret And The Head
------------------------------------------------------------

/-
  The caret is under the head exactly on the tapes whose number
  has one digit. The text of a step has two lines for each
  tape: the first has the cells of the tape in their columns,
  after a label that begins with the number; the second has one
  caret, which is as many columns before that of the head as
  the number of the tape has digits after the first.
-/
theorem caret_under_head_iff_one_digit
    {c : Configuration}
    {i : Nat}
    {t : Tape}
    (hTape : c.tapes[i]? = some t)
    (s : Step) :
    step s c = "\n".intercalate (stepLines s c) ∧
      ('\n' ∉ s.nextState.toList →
        (∀ u ∈ c.tapes, '\n' ∉ u.cells) →
        (step s c).toList.splitOn '\n' =
          (stepLines s c).map String.toList) ∧
      ∃ cells caret,
        (stepLines s c)[3 + 2 * i]? = some cells ∧
          (stepLines s c)[3 + 2 * i + 1]? = some caret ∧
          (label i).toList <+: cells.toList ∧
          (∀ cell,
            cells.toList[cellColumn i cell]? =
              t.cells[cell]?) ∧
          (∀ n,
            caret.toList[n]? = some '^' ↔
              n + (Nat.toDigits 10 i).length =
                cellColumn i t.head + 1) ∧
          (caret.toList[cellColumn i t.head]? = some '^' ↔
            i < 10) := by
  have hDigits :
      (Nat.toDigits 10 i).length ≤ 1 ↔ i < 10 :=
    Nat.length_toDigits_le_iff (by decide) (by decide)
  have hSome : 0 < (Nat.toDigits 10 i).length :=
    Nat.length_toDigits_pos
  have hColumn :
      cellColumn i t.head =
        7 + (Nat.toDigits 10 i).length + 2 * t.head := by
    unfold cellColumn
    rw [length_label]
  rcases getElem?_stepLines hTape s with ⟨hCells, hCaret⟩
  refine
    ⟨rfl, splitOn_step, cellsLine i t, caretLine t, hCells,
      hCaret, ?_, getElem?_cellsLine i t, ?_, ?_⟩
  · unfold cellsLine
    rw [String.toList_append]
    exact List.prefix_append _ _
  · intro n
    rw [getElem?_caretLine_eq_caret_iff, hColumn]
    omega
  · rw [getElem?_caretLine_eq_caret_iff, hColumn, ← hDigits]
    omega

/- A machine with eleven tapes that keeps every blank. -/
def wide : Machine :=
  Machine.edit
    { name := "wide"
      input := []
      states := ["q"]
      start := "q"
      accept := ["q"]
      table := Table.ofSymbols 11 []
      maxSteps := none
      configuration := Configuration.initial 11 "q" []
      steps := 0 }
    (.register
      { state := "q"
        read := List.replicate 11 Symbol.blank
        nextState := "q"
        write := List.replicate 11 Symbol.blank
        moves := List.replicate 11 .stay })

theorem reachable_wide :
    wide.Reachable := by
  have hNew :=
    @Machine.Reachable.create "wide" 11 [] ["q"] "q" ["q"] _ rfl
  exact hNew.perform (.edit _)

/- After its step the caret of the tenth tape is under the head. -/
theorem caret_of_wide_on_tenth_tape :
    ∃ next s t caret,
      wide.step = .ok (next, s) ∧
        next.configuration.tapes[9]? = some t ∧
        (stepLines s next.configuration)[22]? = some caret ∧
        caret.toList[cellColumn 9 t.head]? = some '^' := by
  have hTape :
      (wide.perform .step).configuration.tapes[9]? =
        some Tape.blank :=
    rfl
  rcases
      caret_under_head_iff_one_digit hTape
        ⟨1, "q", List.replicate 11 Symbol.blank, "q"⟩ with
    ⟨_hText, _hLines, _cells, caret, _hCells, hLine, _hLabel,
      _hColumns, _hPlace, hIff⟩
  exact
    ⟨_, _, _, caret, rfl, hTape, hLine,
      hIff.mpr (by decide)⟩

/-
  It is not true of all machines that the caret is under the
  head: on the eleventh tape it is one column before.
-/
theorem wide_caret_before_head :
    ¬ ∀ (m next : Machine) (s : Step) (i n : Nat) (t : Tape)
        (caret : String),
        m.Reachable →
          m.step = .ok (next, s) →
            next.configuration.tapes[i]? = some t →
              (stepLines s next.configuration)[3 + 2 * i + 1]? =
                some caret →
                caret.toList[n]? = some '^' →
                  n = cellColumn i t.head := by
  intro hAlways
  have hTape :
      (wide.perform .step).configuration.tapes[10]? =
        some Tape.blank :=
    rfl
  have hLine :=
    (getElem?_stepLines hTape
      ⟨1, "q", List.replicate 11 Symbol.blank, "q"⟩).2
  have hCaret :
      (caretLine Tape.blank).toList[8]? = some '^' :=
    getElem?_caretLine_eq_caret_iff.mpr rfl
  have hColumn :=
    hAlways wide _ _ 10 8 _ _ reachable_wide rfl hTape hLine
      hCaret
  unfold cellColumn at hColumn
  rw [length_label] at hColumn
  exact absurd hColumn (by decide)

end Transcript

end MultiTape
