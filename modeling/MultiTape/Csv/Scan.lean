import MultiTape.Csv.Basic

/-
  This file reads comma separated text from the front, as far
  as it goes, and gives back what was not read.

  Key definitions include:
    * `scanBody`
    * `scanField`
    * `scanRecord`
    * `scanNewline`
    * `scan`
    * `Cut.ofText?`
-/

namespace MultiTape.Csv

------------------------------------------------------------
-- Fields
------------------------------------------------------------

/-
  Read the body of a quoted field and its closing quote, after
  the opening one. Fails if there is no closing quote.
-/
def scanBody : List Char → Option (List Char × List Char)
  | [] => none
  | '"' :: '"' :: rest => (scanBody rest).map fun (body, rest) => ('"' :: body, rest)
  | '"' :: rest => some ([], rest)
  | c :: rest => (scanBody rest).map fun (body, rest) => (c :: body, rest)

/- Read a quoted field with its padding, if there is one. -/
def scanQuoted
    (cs : List Char) : Option (RawField × List Char) :=
  match cs.dropWhile isPadding with
  | '"' :: rest =>
      (scanBody rest).map fun (body, after) =>
        (.quoted (cs.takeWhile isPadding) body (after.takeWhile isPadding),
          after.dropWhile isPadding)
  | _ => none

/- Read a field without quotes; it may be empty. -/
def scanBare
    (cs : List Char) : RawField × List Char :=
  (.bare (cs.takeWhile isBare), cs.dropWhile isBare)

/- Read a field, quoted if possible. -/
def scanField
    (cs : List Char) : RawField × List Char :=
  (scanQuoted cs).getD (scanBare cs)

private theorem length_dropWhile_le
    (p : Char → Bool)
    (cs : List Char) :
    (cs.dropWhile p).length ≤ cs.length :=
  (List.dropWhile_sublist p).length_le

private theorem length_of_scanBody
    {cs body rest : List Char}
    (h : scanBody cs = some (body, rest)) :
    rest.length ≤ cs.length := by
  fun_induction scanBody cs generalizing body with
  | case1 => simp at h
  | case2 cs ih =>
      obtain ⟨⟨body, rest⟩, hBody, hEq⟩ := Option.map_eq_some_iff.mp h
      cases hEq
      have := ih hBody
      simp
      omega
  | case3 cs =>
      cases h
      simp
  | case4 c cs _ _ ih =>
      obtain ⟨⟨body, rest⟩, hBody, hEq⟩ := Option.map_eq_some_iff.mp h
      cases hEq
      have := ih hBody
      simp
      omega

private theorem length_of_scanQuoted
    {cs rest : List Char}
    {f : RawField}
    (h : scanQuoted cs = some (f, rest)) :
    rest.length ≤ cs.length := by
  unfold scanQuoted at h
  split at h
  · next after hEq =>
      obtain ⟨⟨body, after'⟩, hBody, hPair⟩ := Option.map_eq_some_iff.mp h
      cases hPair
      have hDrop := length_dropWhile_le isPadding cs
      have hAfter := length_dropWhile_le isPadding after'
      have hLength := length_of_scanBody hBody
      rw [hEq, List.length_cons] at hDrop
      omega
  · simp at h

/- What a field leaves is no longer than what it began with. -/
theorem length_scanField
    (cs : List Char) :
    (scanField cs).2.length ≤ cs.length := by
  unfold scanField
  cases h : scanQuoted cs with
  | none => exact length_dropWhile_le isBare cs
  | some r => exact length_of_scanQuoted h

------------------------------------------------------------
-- Records
------------------------------------------------------------

/- Read the fields that follow the first, each after a comma. -/
def scanFields
    (cs : List Char) : List RawField × List Char :=
  match cs with
  | ',' :: rest =>
      let field := scanField rest
      let more := scanFields field.2
      (field.1 :: more.1, more.2)
  | _ => ([], cs)
termination_by cs.length
decreasing_by
  have := length_scanField rest
  simp
  omega

/- Read a record. -/
def scanRecord
    (cs : List Char) : Record × List Char :=
  let field := scanField cs
  let more := scanFields field.2
  (⟨field.1, more.1⟩, more.2)

private theorem length_scanFields
    (cs : List Char) :
    (scanFields cs).2.length ≤ cs.length := by
  fun_induction scanFields cs with
  | case1 rest field more ih =>
      exact Nat.le_succ_of_le (Nat.le_trans ih (length_scanField rest))
  | case2 => exact Nat.le_refl _

/- What a record leaves is no longer than what it began with. -/
theorem length_scanRecord
    (cs : List Char) :
    (scanRecord cs).2.length ≤ cs.length :=
  Nat.le_trans (length_scanFields _) (length_scanField cs)

------------------------------------------------------------
-- Line ends
------------------------------------------------------------

/- Read a line end, the longer one if there are two. -/
def scanNewline : List Char → Option (Newline × List Char)
  | '\r' :: '\n' :: rest => some (.crlf, rest)
  | '\r' :: rest => some (.cr, rest)
  | '\n' :: rest => some (.lf, rest)
  | _ => none

/- A line end has at least one character. -/
theorem length_of_scanNewline
    {cs rest : List Char}
    {n : Newline}
    (h : scanNewline cs = some (n, rest)) :
    rest.length < cs.length := by
  unfold scanNewline at h
  split at h <;> cases h <;> simp only [List.length_cons] <;> omega

------------------------------------------------------------
-- Cuts
------------------------------------------------------------

/- Read the records that follow the first, each after a line end. -/
def scanRecords
    (cs : List Char) : List (Newline × Record) × List Char :=
  match _ : scanNewline cs with
  | some (newline, rest) =>
      let record := scanRecord rest
      let more := scanRecords record.2
      ((newline, record.1) :: more.1, more.2)
  | none => ([], cs)
termination_by cs.length
decreasing_by
  have hNewline := length_of_scanNewline ‹_›
  have hRecord := length_scanRecord rest
  omega

/- Read records as far as they go. -/
def scan
    (cs : List Char) : Cut × List Char :=
  let record := scanRecord cs
  let more := scanRecords record.2
  (⟨record.1, more.1⟩, more.2)

/- Cut a whole text, if it can be read to its end. -/
def Cut.ofText?
    (text : List Char) : Option Cut :=
  if (scan text).2 = [] then
    some (scan text).1
  else
    none

end MultiTape.Csv
