import MultiTape.Csv.Row
import MultiTape.Proofs.Csv.RoundTrip
import Mathlib.Data.List.Forall2

/-
  This file defines the ways in which a text can be written in
  a field, and shows that they are all the well formed fields
  that stand for the text.

  Key definitions include:
    * `Csv.RawField.Writes`
    * `Csv.Record.Writes`
    * `Csv.Row.texts`

  Main statements:
    * `Text.trim_append_append`
    * `Csv.RawField.writes_iff`
    * `Csv.Record.exists_writes`
    * `Csv.Record.Writes.texts_locate`
-/

namespace MultiTape

------------------------------------------------------------
-- Trimming
------------------------------------------------------------

namespace Text

/- White space around a text that has none at its ends is removed. -/
theorem trim_append_append
    {before text after : List Char}
    (hBefore : ∀ c ∈ before, IsWhitespace c)
    (hAfter : ∀ c ∈ after, IsWhitespace c)
    (hHead : ∀ c ∈ text.head?, ¬ IsWhitespace c)
    (hLast : ∀ c ∈ text.getLast?, ¬ IsWhitespace c) :
    trim (before ++ (text ++ after)) = text := by
  have hFront : ∀ c ∈ before, decide (IsWhitespace c) = true := by
    intro c hc
    exact decide_eq_true (hBefore c hc)
  have hBack :
      ∀ c ∈ after.reverse, decide (IsWhitespace c) = true := by
    intro c hc
    exact decide_eq_true
      (hAfter c (List.mem_reverse.mp hc))
  have hEnd :
      ∀ c ∈ text.reverse.head?,
        decide (IsWhitespace c) = false := by
    intro c hc
    rw [List.head?_reverse] at hc
    exact decide_eq_false (hLast c hc)
  unfold trim trimRight trimLeft
  cases text with
  | nil =>
      have hAll :
          (before ++ ([] ++ after)).dropWhile
              (fun c => decide (IsWhitespace c)) = [] := by
        rw [List.dropWhile_eq_nil_iff]
        intro c hc
        rcases List.mem_append.mp hc with hc | hc
        · exact hFront c hc
        · exact decide_eq_true (hAfter c hc)
      rw [hAll]
      rfl
  | cons d text =>
      have hStart :
          ∀ c ∈ ((d :: text) ++ after).head?,
            decide (IsWhitespace c) = false := by
        intro c hc
        exact decide_eq_false (hHead c hc)
      rw [Csv.dropWhile_append_of_head? hFront hStart,
        List.reverse_append,
        Csv.dropWhile_append_of_head? hBack hEnd,
        List.reverse_reverse]

/- Characters that are not dropped begin with one that stays. -/
theorem head?_trimLeft
    {cs : List Char} :
    ∀ c ∈ (trimLeft cs).head?, ¬ IsWhitespace c := by
  intro c hc
  have hStays :=
    List.head?_dropWhile_not
      (fun c => decide (IsWhitespace c)) cs
  unfold trimLeft at hc
  rw [hc] at hStays
  exact of_decide_eq_false hStays

/- Only white space is removed in front. -/
theorem exists_eq_append_trimLeft
    (cs : List Char) :
    ∃ before,
      cs = before ++ trimLeft cs ∧
        ∀ c ∈ before, IsWhitespace c := by
  refine ⟨cs.takeWhile fun c => decide (IsWhitespace c),
    List.takeWhile_append_dropWhile.symm, ?_⟩
  intro c hc
  have hSpace := List.mem_takeWhile_imp hc
  exact of_decide_eq_true hSpace

/- Only white space is removed at the end. -/
theorem exists_eq_trimRight_append
    (cs : List Char) :
    ∃ after,
      cs = trimRight cs ++ after ∧
        ∀ c ∈ after, IsWhitespace c := by
  rcases exists_eq_append_trimLeft cs.reverse with
    ⟨before, hReverse, hBefore⟩
  refine ⟨before.reverse, ?_, ?_⟩
  · unfold trimRight
    rw [← List.reverse_append, ← hReverse,
      List.reverse_reverse]
  · intro c hc
    exact hBefore c (List.mem_reverse.mp hc)

/-
  A text is found between white space in what it was trimmed
  from, and has none at its ends.
-/
theorem exists_eq_append_trim_append
    (cs : List Char) :
    ∃ before after,
      cs = before ++ (trim cs ++ after) ∧
        (∀ c ∈ before, IsWhitespace c) ∧
        (∀ c ∈ after, IsWhitespace c) ∧
        (∀ c ∈ (trim cs).head?,
          ¬ IsWhitespace c) ∧
        ∀ c ∈ (trim cs).getLast?,
          ¬ IsWhitespace c := by
  rcases exists_eq_append_trimLeft cs with
    ⟨before, hFront, hBefore⟩
  rcases exists_eq_trimRight_append (trimLeft cs) with
    ⟨after, hBack, hAfter⟩
  refine ⟨before, after, ?_, hBefore, hAfter, ?_, ?_⟩
  · unfold trim
    rw [← hBack]
    exact hFront
  · intro c hc
    have hFirst : c ∈ (trimLeft cs).head? := by
      rw [hBack, List.head?_append]
      exact Option.or_eq_some_iff.mpr (Or.inl hc)
    exact head?_trimLeft c hFirst
  · intro c hc
    unfold trim trimRight at hc
    rw [List.getLast?_reverse] at hc
    exact head?_trimLeft c hc

end Text

------------------------------------------------------------
-- Fields That Write Texts
------------------------------------------------------------

namespace Csv

/-
  A text is written between quotes, with padding on both sides,
  or as it is. The latter is possible if it contains nothing
  that ends a field and has no white space at its ends; then
  white space that ends no line may stand on both sides.
-/
inductive RawField.Writes
    (text : List Char) : RawField → Prop where
  | quoted
      {before after : List Char}
      (hBefore : ∀ c ∈ before, isPadding c = true)
      (hAfter : ∀ c ∈ after, isPadding c = true) :
      Writes text (.quoted before text after)
  | bare
      {before after : List Char}
      (hText : ∀ c ∈ text, isBare c = true)
      (hHead : ∀ c ∈ text.head?, ¬ Text.IsWhitespace c)
      (hLast : ∀ c ∈ text.getLast?, ¬ Text.IsWhitespace c)
      (hBefore :
        ∀ c ∈ before,
          Text.IsWhitespace c ∧ c ≠ '\r' ∧ c ≠ '\n')
      (hAfter :
        ∀ c ∈ after,
          Text.IsWhitespace c ∧ c ≠ '\r' ∧ c ≠ '\n') :
      Writes text (.bare (before ++ (text ++ after)))

/- White space that ends no line ends no field. -/
theorem isBare_of_isWhitespace
    {c : Char}
    (hSpace : Text.IsWhitespace c)
    (hCr : c ≠ '\r')
    (hLf : c ≠ '\n') :
    isBare c = true := by
  have hComma : c ≠ ',' := by
    intro hEq
    subst hEq
    revert hSpace
    decide
  have hQuote : c ≠ '"' := by
    intro hEq
    subst hEq
    revert hSpace
    decide
  simp [isBare, hComma, hQuote, hCr, hLf]

/- What ends no field ends no line. -/
theorem not_lineEnd_of_isBare
    {c : Char}
    (hBare : isBare c = true) :
    c ≠ '\r' ∧ c ≠ '\n' := by
  constructor
  · intro hEq
    subst hEq
    cases hBare
  · intro hEq
    subst hEq
    cases hBare

/- A field that writes a text is well formed. -/
theorem RawField.Writes.wellFormed
    {text : List Char}
    {f : RawField}
    (hWrites : f.Writes text) :
    f.WellFormed := by
  cases hWrites with
  | quoted hBefore hAfter => exact ⟨hBefore, hAfter⟩
  | bare hText hHead hLast hBefore hAfter =>
      intro c hc
      simp only [List.mem_append] at hc
      rcases hc with hc | hc | hc
      · rcases hBefore c hc with ⟨hSpace, hCr, hLf⟩
        exact isBare_of_isWhitespace hSpace hCr hLf
      · exact hText c hc
      · rcases hAfter c hc with ⟨hSpace, hCr, hLf⟩
        exact isBare_of_isWhitespace hSpace hCr hLf

/- A field that writes a text stands for it. -/
theorem RawField.Writes.text_eq
    {text : List Char}
    {f : RawField}
    (hWrites : f.Writes text) :
    f.text = text := by
  cases hWrites with
  | quoted hBefore hAfter => rfl
  | bare hText hHead hLast hBefore hAfter =>
      apply Text.trim_append_append _ _ hHead hLast
      · intro c hc
        exact (hBefore c hc).1
      · intro c hc
        exact (hAfter c hc).1

/- The fields that write a text are the well formed ones that stand for it. -/
theorem RawField.writes_iff
    {text : List Char}
    {f : RawField} :
    f.Writes text ↔ f.WellFormed ∧ f.text = text := by
  constructor
  · intro hWrites
    exact ⟨hWrites.wellFormed, hWrites.text_eq⟩
  · intro hParts
    rcases hParts with ⟨hField, hText⟩
    cases f with
    | quoted before body after =>
        cases hText
        exact .quoted hField.1 hField.2
    | bare chars =>
        have hTrim : Text.trim chars = text := by
          exact hText
        rcases Text.exists_eq_append_trim_append chars with
          ⟨before, after, hChars, hBefore, hAfter, hHead,
            hLast⟩
        rw [hTrim] at hChars hHead hLast
        have hBare :
            ∀ c ∈ before ++ (text ++ after),
              isBare c = true := by
          rw [← hChars]
          exact hField
        rw [hChars]
        refine .bare ?_ hHead hLast ?_ ?_
        · intro c hc
          apply hBare
          simp [hc]
        · intro c hc
          have hChar : isBare c = true := by
            apply hBare
            simp [hc]
          exact ⟨hBefore c hc, not_lineEnd_of_isBare hChar⟩
        · intro c hc
          have hChar : isBare c = true := by
            apply hBare
            simp [hc]
          exact ⟨hAfter c hc, not_lineEnd_of_isBare hChar⟩

instance
    (text : List Char)
    (f : RawField) :
    Decidable (f.Writes text) :=
  decidable_of_iff (f.WellFormed ∧ f.text = text)
    RawField.writes_iff.symm

/- A record writes texts, one in each field. -/
def Record.Writes
    (texts : List (List Char))
    (r : Record) : Prop :=
  List.Forall₂ (fun f text => f.Writes text) r.fields texts

instance
    (texts : List (List Char))
    (r : Record) :
    Decidable (r.Writes texts) :=
  inferInstanceAs
    (Decidable
      (List.Forall₂ (fun f text => f.Writes text)
        r.fields texts))

/- A record that writes texts is well formed. -/
theorem Record.Writes.wellFormed
    {texts : List (List Char)}
    {r : Record}
    (hWrites : r.Writes texts) :
    r.WellFormed := by
  have hBoth :
      List.Forall₂
        (fun (f : RawField) text =>
          f.WellFormed ∧ f.Writes text)
        r.fields texts := by
    apply hWrites.imp
    intro f text hField
    exact ⟨hField.wellFormed, hField⟩
  exact ((List.forall₂_and_left _ _).mp hBoth).1

/- A record that writes texts stands for them. -/
theorem Record.Writes.map_text_eq
    {texts : List (List Char)}
    {r : Record}
    (hWrites : r.Writes texts) :
    r.fields.map RawField.text = texts := by
  have hTexts :
      List.Forall₂
        (fun (f : RawField) text => f.text = text)
        r.fields texts := by
    apply hWrites.imp
    intro f text hField
    exact hField.text_eq
  rw [← List.forall₂_eq_eq_eq, List.forall₂_map_left_iff]
  exact hTexts

/- Every list of texts can be written between quotes. -/
theorem Record.exists_writes
    {texts : List (List Char)}
    (hTexts : texts ≠ []) :
    ∃ r : Record, r.Writes texts := by
  have hQuoted :
      ∀ text, (RawField.quoted [] text []).Writes text := by
    intro text
    apply RawField.Writes.quoted <;> simp
  cases texts with
  | nil => exact absurd rfl hTexts
  | cons text texts =>
      refine ⟨⟨.quoted [] text [],
        texts.map fun t => .quoted [] t []⟩, ?_⟩
      refine .cons (hQuoted text) ?_
      rw [List.forall₂_map_left_iff, List.forall₂_same]
      intro t ht
      exact hQuoted t

------------------------------------------------------------
-- Located Texts
------------------------------------------------------------

/- The texts of a row. -/
def Row.texts
    (r : Row) : List (List Char) :=
  r.fields.map Field.text

/- A row has as many texts as fields. -/
theorem Row.length_texts
    (r : Row) :
    r.texts.length = r.width := by
  simp [Row.texts, Row.fields, Row.width]

/- A row is empty if there is nothing in its texts. -/
theorem Row.isEmpty_iff
    {r : Row} :
    r.IsEmpty ↔ ∀ text ∈ r.texts, text = [] := by
  simp [Row.IsEmpty, Row.texts]

/- The texts of fields do not depend on their places. -/
theorem map_text_locateFields
    (start : Nat)
    (fields : List RawField) :
    (locateFields start fields).map Field.text =
      fields.map RawField.text := by
  induction fields generalizing start with
  | nil => rfl
  | cons f fields ih =>
      unfold locateFields
      rw [List.map_cons, ih, List.map_cons]
      rfl

/- The texts of a row are those of its record. -/
theorem Record.texts_locate
    (start : Nat)
    (r : Record) :
    (r.locate start).texts = r.fields.map RawField.text := by
  unfold Row.texts Row.fields Record.locate Record.fields
  rw [List.map_cons, map_text_locateFields, List.map_cons]
  rfl

/- A record that writes texts is located as a row of them. -/
theorem Record.Writes.texts_locate
    {texts : List (List Char)}
    {r : Record}
    (hWrites : r.Writes texts)
    (start : Nat) :
    (r.locate start).texts = texts := by
  rw [Record.texts_locate, hWrites.map_text_eq]

/- The first field of the row has the first of the texts. -/
theorem Record.Writes.text_first_locate
    {text : List Char}
    {texts : List (List Char)}
    {r : Record}
    (hWrites : r.Writes (text :: texts))
    (start : Nat) :
    (r.locate start).first.text = text := by
  have hTexts := hWrites.texts_locate start
  exact (List.cons_eq_cons.mp hTexts).1

end Csv

end MultiTape
