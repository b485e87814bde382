import MultiTape.Proofs.Transcript.Caret
import Mathlib.Data.List.Induction

/-
  This file reads the text of a step from its end. The name of
  a state and the symbols of a tape are written as they are, so
  that they may look like any line of the text. But after the
  cells of the last tape there is nothing but one caret among
  spaces. It tells how many cells there are, the cells begin
  where their label ends, and the number in the label tells how
  many tapes are in front. So two steps have the same text only
  if they show the same.

  Key definitions include:
    * `Transcript.following`
    * `Transcript.headText`

  Main statements:
    * `Transcript.toList_step`
    * `Transcript.eq_of_append_tapeLines_eq`
    * `Transcript.eq_of_append_tapesLines_eq`
    * `Transcript.text_of_step_is_unambiguous`
-/

namespace MultiTape

namespace Transcript

------------------------------------------------------------
-- Cutting Lists
------------------------------------------------------------

section Cutting

variable {α : Type}
variable {a : α}
variable {xs ys us vs : List α}

/- A list is cut in one way at the last place of an item. -/
theorem eq_of_append_cons_eq_of_last
    (hEq : xs ++ a :: us = ys ++ a :: vs)
    (hLeft : a ∉ us)
    (hRight : a ∉ vs) :
    xs = ys ∧ us = vs := by
  rcases List.append_eq_append_iff.mp hEq with
    ⟨ws, hMore, hRest⟩ | ⟨ws, hMore, hRest⟩
  · cases ws with
    | nil =>
        cases hRest
        exact ⟨(hMore.trans (List.append_nil xs)).symm, rfl⟩
    | cons w ws =>
        rcases List.cons.inj hRest with ⟨_hItem, rfl⟩
        exact absurd List.mem_append_cons_self hLeft
  · cases ws with
    | nil =>
        cases hRest
        exact ⟨hMore.trans (List.append_nil ys), rfl⟩
    | cons w ws =>
        rcases List.cons.inj hRest with ⟨_hItem, rfl⟩
        exact absurd List.mem_append_cons_self hRight

/- It is cut in one way at the first place as well. -/
theorem eq_of_append_cons_eq_of_first
    (hEq : xs ++ a :: us = ys ++ a :: vs)
    (hLeft : a ∉ xs)
    (hRight : a ∉ ys) :
    xs = ys ∧ us = vs := by
  have hBack :
      us.reverse ++ a :: xs.reverse =
        vs.reverse ++ a :: ys.reverse := by
    simpa using congrArg List.reverse hEq
  rcases
      eq_of_append_cons_eq_of_last hBack
        (mt List.mem_reverse.mp hLeft)
        (mt List.mem_reverse.mp hRight) with
    ⟨hAfter, hBefore⟩
  exact
    ⟨List.reverse_inj.mp hBefore, List.reverse_inj.mp hAfter⟩

end Cutting

/- A number is told by its numeral. -/
theorem eq_of_toDigits_eq
    {m n : Nat}
    (hEq : Nat.toDigits 10 m = Nat.toDigits 10 n) :
    m = n := by
  have hValue :
      ∀ k, Nat.ofDigitChars 10 (Nat.toDigits 10 k) 0 = k :=
    fun _ =>
      Nat.ofDigitChars_toDigits (by decide) (by decide)
  rw [← hValue m, hEq, hValue n]

/- A numeral has no space. -/
theorem space_not_mem_toDigits
    (n : Nat) :
    ' ' ∉ Nat.toDigits 10 n := by
  intro hMem
  have hDigit :=
    Nat.isDigit_of_mem_toDigits (by decide) (by decide) hMem
  exact absurd hDigit (by decide)

------------------------------------------------------------
-- Spaced Characters
------------------------------------------------------------

/- The length of spaced characters tells how many there are. -/
theorem length_toList_spaced
    (cs : List Char) :
    (spaced cs).toList.length = 2 * cs.length - 1 := by
  rw [toList_spaced, List.length_intersperse]

/- Spaced characters are told by their text. -/
theorem eq_of_toList_spaced_eq
    {cs ds : List Char}
    (hEq : (spaced cs).toList = (spaced ds).toList) :
    cs = ds := by
  apply List.ext_getElem?
  intro i
  rw [← getElem?_spaced, hEq, getElem?_spaced]

/- Spaces that are spaced are spaces. -/
theorem intersperse_cons_replicate
    (c : Char)
    (n : Nat) :
    (c :: List.replicate n ' ').intersperse ' ' =
      c :: List.replicate (2 * n) ' ' := by
  induction n generalizing c with
  | zero => rfl
  | succ n ih =>
      rw [List.replicate_succ, List.intersperse_cons_cons, ih]
      rfl

/- Spaces in front are doubled. -/
theorem intersperse_replicate_append_cons
    (n : Nat)
    (c : Char)
    (cs : List Char) :
    (List.replicate n ' ' ++ c :: cs).intersperse ' ' =
      List.replicate (2 * n) ' ' ++
        (c :: cs).intersperse ' ' := by
  induction n with
  | zero => rfl
  | succ n ih =>
      have hSplit :
          (' ' :: (List.replicate n ' ' ++ c :: cs)).intersperse
              ' ' =
            ' ' :: ' ' ::
              (List.replicate n ' ' ++ c :: cs).intersperse
                ' ' := by
        cases n <;> rfl
      rw [List.replicate_succ, List.cons_append, hSplit, ih]
      rfl

/- The line of a caret is the caret among spaces. -/
theorem toList_caretLine
    (t : Tape) :
    (caretLine t).toList =
      List.replicate (8 + 2 * t.left.length) ' ' ++
        '^' :: List.replicate (2 * t.right.length) ' ' := by
  have hMargin : "        ".toList = List.replicate 8 ' ' := rfl
  unfold caretLine pointer
  rw [String.toList_append, toList_spaced,
    intersperse_replicate_append_cons,
    intersperse_cons_replicate, hMargin, ← List.append_assoc,
    List.replicate_append_replicate]

------------------------------------------------------------
-- The Text Of A Step
------------------------------------------------------------

/- Lines that follow another one: each has a line end in front. -/
def following
    (lines : List String) : List Char :=
  lines.flatMap fun line => '\n' :: line.toList

/- More lines follow after those before. -/
theorem following_append
    (lines more : List String) :
    following (lines ++ more) =
      following lines ++ following more :=
  List.flatMap_append

/- Lines with line ends between them are the first and the rest. -/
theorem toList_intercalate_cons
    (line : String)
    (lines : List String) :
    ("\n".intercalate (line :: lines)).toList =
      line.toList ++ following lines := by
  induction lines generalizing line with
  | nil => simp [following]
  | cons next lines ih =>
      rw [String.intercalate_cons_cons, String.toList_append,
        String.toList_append, ih]
      simp [following]

/- What stands before the lines of the tapes. -/
def headText
    (s : Step) : List Char :=
  (separator ++ "\nStep ").toList ++
    Nat.toDigits 10 s.index ++
    '\n' :: ("Next State: ".toList ++ s.nextState.toList)

/- A step is written in a head and the lines of its tapes. -/
theorem toList_step
    (s : Step)
    (c : Configuration) :
    (step s c).toList =
      headText s ++ following (tapesLines 0 c.tapes) := by
  have hLines :
      stepLines s c =
        separator ::
          (["Step " ++ toString s.index,
              "Next State: " ++ s.nextState] ++
            tapesLines 0 c.tapes) :=
    rfl
  rw [step_eq_intercalate, hLines, toList_intercalate_cons,
    following_append, ← List.append_assoc]
  congr 1
  simp [following, headText]

/- The parts of the head are told by it. -/
theorem eq_of_headText_eq
    {s s' : Step}
    (hEq : headText s = headText s') :
    s.index = s'.index ∧ s.nextState = s'.nextState := by
  unfold headText at hEq
  rw [List.append_assoc, List.append_assoc] at hEq
  rcases
      eq_of_append_cons_eq_of_first
        (List.append_cancel_left hEq)
        (newline_not_mem_toDigits s.index)
        (newline_not_mem_toDigits s'.index) with
    ⟨hIndex, hState⟩
  exact
    ⟨eq_of_toDigits_eq hIndex,
      String.toList_inj.mp (List.append_cancel_left hState)⟩

------------------------------------------------------------
-- The Lines Of A Tape
------------------------------------------------------------

/- A label is told by the number in it, whatever is in front. -/
theorem eq_of_append_label_eq
    {xs ys : List Char}
    {i j : Nat}
    (hEq :
      xs ++ '\n' :: (label i).toList =
        ys ++ '\n' :: (label j).toList) :
    xs = ys ∧ i = j := by
  have hLabel :
      ∀ (zs : List Char) n,
        zs ++ '\n' :: (label n).toList =
          (zs ++ "\nTape".toList) ++
              ' ' :: Nat.toDigits 10 n ++
            ": ".toList := by
    intro zs n
    rw [toList_label]
    simp
  rw [hLabel, hLabel] at hEq
  rcases
      eq_of_append_cons_eq_of_last
        (List.append_cancel_right hEq)
        (space_not_mem_toDigits i)
        (space_not_mem_toDigits j) with
    ⟨hBefore, hNumeral⟩
  exact
    ⟨List.append_cancel_right hBefore,
      eq_of_toDigits_eq hNumeral⟩

/-
  The lines of a tape are cut off the end of any text in one
  way. Read from the end, the caret comes first: the spaces
  after it and those before it, up to the line end, count the
  cells on both sides of the head. So it is known how long the
  cells are, and what they are. What is left ends with a label.
-/
theorem eq_of_append_tapeLines_eq
    {xs ys : List Char}
    {i j : Nat}
    {t u : Tape}
    (hEq :
      xs ++ following (tapeLines i t) =
        ys ++ following (tapeLines j u)) :
    xs = ys ∧ i = j ∧ t = u := by
  have hLines :
      ∀ (zs : List Char) n (v : Tape),
        zs ++ following (tapeLines n v) =
          (zs ++ '\n' :: (label n).toList ++
                (spaced v.cells).toList ++
              '\n' ::
                List.replicate (8 + 2 * v.left.length) ' ') ++
            '^' :: List.replicate (2 * v.right.length) ' ' := by
    intro zs n v
    have hTwo : tapeLines n v = [cellsLine n v, caretLine v] := rfl
    simp [hTwo, following, cellsLine, toList_caretLine]
  rw [hLines, hLines] at hEq
  rcases
      eq_of_append_cons_eq_of_last hEq
        (by simp [List.mem_replicate])
        (by simp [List.mem_replicate]) with
    ⟨hBeforeCaret, hAfter⟩
  rcases
      eq_of_append_cons_eq_of_last hBeforeCaret
        (by simp [List.mem_replicate])
        (by simp [List.mem_replicate]) with
    ⟨hCells, hMargin⟩
  have hRight : t.right.length = u.right.length := by
    have hLength := congrArg List.length hAfter
    simp only [List.length_replicate] at hLength
    omega
  have hLeft : t.left.length = u.left.length := by
    have hLength := congrArg List.length hMargin
    simp only [List.length_replicate] at hLength
    omega
  have hSize : t.cells.length = u.cells.length := by
    rw [Tape.length_cells, Tape.length_cells, Tape.size,
      Tape.size, hLeft, hRight]
  rcases
      List.append_inj' hCells
        (by rw [length_toList_spaced, length_toList_spaced,
          hSize]) with
    ⟨hLabel, hSpaced⟩
  rcases eq_of_append_label_eq hLabel with ⟨hFront, hIndex⟩
  exact
    ⟨hFront, hIndex,
      Tape.ext_cells (eq_of_toList_spaced_eq hSpaced) hLeft⟩

------------------------------------------------------------
-- The Lines Of All Tapes
------------------------------------------------------------

/- The lines of one more tape come after those before. -/
theorem tapesLines_concat
    (first : Nat)
    (ts : List Tape)
    (t : Tape) :
    tapesLines first (ts ++ [t]) =
      tapesLines first ts ++
        tapeLines (first + ts.length) t := by
  induction ts generalizing first with
  | nil => simp [tapesLines]
  | cons u us ih =>
      have hIndex :
          first + 1 + us.length = first + (us.length + 1) := by
        omega
      simp [tapesLines, ih, hIndex]

/- So a text that ends with tapes ends with the last of them. -/
theorem append_tapesLines_concat
    (xs : List Char)
    (ts : List Tape)
    (t : Tape) :
    xs ++ following (tapesLines 0 (ts ++ [t])) =
      (xs ++ following (tapesLines 0 ts)) ++
        following (tapeLines ts.length t) := by
  rw [tapesLines_concat, following_append, Nat.zero_add,
    List.append_assoc]

/-
  The lines of tapes are cut off the end of any text in one
  way, if it is known how many tapes there are.
-/
theorem eq_of_append_tapesLines_eq
    {xs ys : List Char}
    {ts us : List Tape}
    (hLength : ts.length = us.length)
    (hEq :
      xs ++ following (tapesLines 0 ts) =
        ys ++ following (tapesLines 0 us)) :
    xs = ys ∧ ts = us := by
  induction ts using List.reverseRecOn generalizing us with
  | nil =>
      have hNil : us = [] := List.length_eq_zero_iff.mp hLength.symm
      subst hNil
      exact ⟨List.append_cancel_right hEq, rfl⟩
  | append_singleton ts t ih =>
      cases us using List.reverseRecOn with
      | nil => simp at hLength
      | append_singleton us u =>
          rw [append_tapesLines_concat,
            append_tapesLines_concat] at hEq
          rcases eq_of_append_tapeLines_eq hEq with
            ⟨hFront, _hIndex, hTape⟩
          have hShorter : ts.length = us.length := by
            simpa using hLength
          rcases ih hShorter hFront with ⟨hHead, hTapes⟩
          rw [hTapes, hTape]
          exact ⟨hHead, rfl⟩

/- The last label tells how many tapes there are. -/
theorem length_eq_of_append_tapesLines_eq
    {xs ys : List Char}
    {ts us : List Tape}
    (hSome : ts ≠ [])
    (hSome' : us ≠ [])
    (hEq :
      xs ++ following (tapesLines 0 ts) =
        ys ++ following (tapesLines 0 us)) :
    ts.length = us.length := by
  cases ts using List.reverseRecOn with
  | nil => exact absurd rfl hSome
  | append_singleton ts t =>
      cases us using List.reverseRecOn with
      | nil => exact absurd rfl hSome'
      | append_singleton us u =>
          rw [append_tapesLines_concat,
            append_tapesLines_concat] at hEq
          rcases eq_of_append_tapeLines_eq hEq with
            ⟨_hFront, hIndex, _hTape⟩
          rw [List.length_append, List.length_append, hIndex]
          rfl

------------------------------------------------------------
-- Steps With The Same Text
------------------------------------------------------------

/-
  A step is told by its text. Two steps have the same text
  exactly if they have the same number and lead to the same
  state, and there are as many tapes after both, with the same
  cells and the head in the same place on each. It does not
  matter what the names of states and the symbols look like.
-/
theorem text_of_step_is_unambiguous
    (s s' : Step)
    (c c' : Configuration) :
    step s c = step s' c' ↔
      s.index = s'.index ∧
        s.nextState = s'.nextState ∧
        c.tapes.length = c'.tapes.length ∧
        c.tapes.map Tape.cells = c'.tapes.map Tape.cells ∧
        c.tapes.map Tape.head = c'.tapes.map Tape.head := by
  constructor
  · intro hText
    have hChars := congrArg String.toList hText
    rw [toList_step, toList_step] at hChars
    have hSome : ∀ d : Configuration, d.tapes ≠ [] :=
      fun d => List.cons_ne_nil d.control d.work
    have hLength :=
      length_eq_of_append_tapesLines_eq (hSome c) (hSome c')
        hChars
    rcases eq_of_append_tapesLines_eq hLength hChars with
      ⟨hHead, hTapes⟩
    rcases eq_of_headText_eq hHead with ⟨hIndex, hState⟩
    rw [hTapes]
    exact ⟨hIndex, hState, rfl, rfl, rfl⟩
  · rintro ⟨hIndex, hState, hLength, hCells, hHeads⟩
    have hTapes : c.tapes = c'.tapes := by
      apply List.ext_getElem hLength
      intro i hi hi'
      have hCell := congrArg (·[i]?) hCells
      have hHead := congrArg (·[i]?) hHeads
      simp only [List.getElem?_map,
        List.getElem?_eq_getElem hi,
        List.getElem?_eq_getElem hi', Option.map_some,
        Option.some.injEq] at hCell hHead
      exact Tape.ext_cells hCell hHead
    unfold step
    rw [hIndex, hState, hTapes]

end Transcript

end MultiTape
