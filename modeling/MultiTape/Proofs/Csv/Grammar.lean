import MultiTape.Csv.Lemmas
import MultiTape.Proofs.Csv.RoundTrip

/-
  This file gives the grammar of comma separated text as a
  parsing expression grammar: choices are tried in order, and a
  repetition takes as much as it can and gives nothing back. It
  shows that reading a text from the front does exactly what
  the grammar does.

  Key definitions include:
    * `Tree`
    * `Peg`
    * `Peg.Evaluates`
    * `Grammar.description`
    * `Cut.tree`

  Main statements:
    * `Peg.Evaluates.unique`
    * `Grammar.evaluates_field`
    * `Grammar.evaluates_description`
    * `Grammar.parses_iff`
-/

namespace MultiTape.Csv

------------------------------------------------------------
-- Parsing Expressions
------------------------------------------------------------

/- The parts of a text that the grammar has a name for. -/
inductive Part where
  | description
  | record
  | field
  | quoted
  | body
  | bare
  | textEnd
  deriving DecidableEq, Repr

/- What was matched by a named expression, with the named matches in it. -/
inductive Tree where
  | node (part : Part) (chars : List Char) (inner : List Tree)

/- A parsing expression. -/
inductive Peg where
  /- Any one character. -/
  | any
  /- This character. -/
  | char (c : Char)
  /- One expression and then another. -/
  | seq (e f : Peg)
  /- An expression, or another if the first fails. -/
  | choice (e f : Peg)
  /- An expression as often as it succeeds. -/
  | star (e : Peg)
  /- The expression does not succeed here; nothing is taken. -/
  | absent (e : Peg)
  /- An expression of which the match is kept. -/
  | named (part : Part) (e : Peg)
  deriving DecidableEq, Repr

namespace Peg

/-
  An expression fails on a text, or it succeeds and leaves the
  rest of the text, with the matches that are kept.
-/
inductive Evaluates :
    Peg → List Char → Option (List Tree × List Char) → Prop
    where
  | any_cons
      {c : Char}
      {cs : List Char} :
      Evaluates .any (c :: cs) (some ([], cs))
  | any_nil :
      Evaluates .any [] none
  | char_cons
      {c : Char}
      {cs : List Char} :
      Evaluates (.char c) (c :: cs) (some ([], cs))
  | char_other
      {c : Char}
      {cs : List Char}
      (hOther : cs.head? ≠ some c) :
      Evaluates (.char c) cs none
  | seq_some
      {e f : Peg}
      {cs rest left : List Char}
      {ts us : List Tree}
      (hFirst : Evaluates e cs (some (ts, rest)))
      (hSecond : Evaluates f rest (some (us, left))) :
      Evaluates (.seq e f) cs (some (ts ++ us, left))
  | seq_first
      {e f : Peg}
      {cs : List Char}
      (hFirst : Evaluates e cs none) :
      Evaluates (.seq e f) cs none
  | seq_second
      {e f : Peg}
      {cs rest : List Char}
      {ts : List Tree}
      (hFirst : Evaluates e cs (some (ts, rest)))
      (hSecond : Evaluates f rest none) :
      Evaluates (.seq e f) cs none
  | choice_first
      {e f : Peg}
      {cs rest : List Char}
      {ts : List Tree}
      (hFirst : Evaluates e cs (some (ts, rest))) :
      Evaluates (.choice e f) cs (some (ts, rest))
  | choice_second
      {e f : Peg}
      {cs : List Char}
      {r : Option (List Tree × List Char)}
      (hFirst : Evaluates e cs none)
      (hSecond : Evaluates f cs r) :
      Evaluates (.choice e f) cs r
  | star_none
      {e : Peg}
      {cs : List Char}
      (hOnce : Evaluates e cs none) :
      Evaluates (.star e) cs (some ([], cs))
  | star_some
      {e : Peg}
      {cs rest left : List Char}
      {ts us : List Tree}
      (hOnce : Evaluates e cs (some (ts, rest)))
      (hMore : Evaluates (.star e) rest (some (us, left))) :
      Evaluates (.star e) cs (some (ts ++ us, left))
  | absent_none
      {e : Peg}
      {cs : List Char}
      (hNone : Evaluates e cs none) :
      Evaluates (.absent e) cs (some ([], cs))
  | absent_some
      {e : Peg}
      {cs rest : List Char}
      {ts : List Tree}
      (hSome : Evaluates e cs (some (ts, rest))) :
      Evaluates (.absent e) cs none
  | named_some
      {part : Part}
      {e : Peg}
      {chars rest : List Char}
      {ts : List Tree}
      (hSome : Evaluates e (chars ++ rest) (some (ts, rest))) :
      Evaluates (.named part e) (chars ++ rest)
        (some ([.node part chars ts], rest))
  | named_none
      {part : Part}
      {e : Peg}
      {cs : List Char}
      (hNone : Evaluates e cs none) :
      Evaluates (.named part e) cs none

/- An expression fares in one way only. -/
theorem Evaluates.unique
    {e : Peg}
    {cs : List Char}
    {r r' : Option (List Tree × List Char)}
    (hEvaluates : Evaluates e cs r)
    (hOther : Evaluates e cs r') :
    r = r' := by
  induction hEvaluates generalizing r' with
  | any_cons =>
      cases hOther
      rfl
  | any_nil =>
      cases hOther
      rfl
  | char_cons =>
      cases hOther with
      | char_cons => rfl
      | char_other hNe => exact absurd rfl hNe
  | char_other hNe =>
      cases hOther with
      | char_cons => exact absurd rfl hNe
      | char_other _hNe => rfl
  | seq_some _hFirst _hSecond ihFirst ihSecond =>
      cases hOther with
      | seq_some hFirst hSecond =>
          cases ihFirst hFirst
          cases ihSecond hSecond
          rfl
      | seq_first hFirst => cases ihFirst hFirst
      | seq_second hFirst hSecond =>
          cases ihFirst hFirst
          cases ihSecond hSecond
  | seq_first _hFirst ihFirst =>
      cases hOther with
      | seq_some hFirst _hSecond => cases ihFirst hFirst
      | seq_first _hFirst => rfl
      | seq_second _hFirst _hSecond => rfl
  | seq_second _hFirst _hSecond ihFirst ihSecond =>
      cases hOther with
      | seq_some hFirst hSecond =>
          cases ihFirst hFirst
          cases ihSecond hSecond
      | seq_first _hFirst => rfl
      | seq_second _hFirst _hSecond => rfl
  | choice_first _hFirst ihFirst =>
      cases hOther with
      | choice_first hFirst => exact ihFirst hFirst
      | choice_second hFirst _hSecond => cases ihFirst hFirst
  | choice_second _hFirst _hSecond ihFirst ihSecond =>
      cases hOther with
      | choice_first hFirst => cases ihFirst hFirst
      | choice_second _hFirst hSecond => exact ihSecond hSecond
  | star_none _hOnce ihOnce =>
      cases hOther with
      | star_none _hOnce => rfl
      | star_some hOnce _hMore => cases ihOnce hOnce
  | star_some _hOnce _hMore ihOnce ihMore =>
      cases hOther with
      | star_none hOnce => cases ihOnce hOnce
      | star_some hOnce hMore =>
          cases ihOnce hOnce
          cases ihMore hMore
          rfl
  | absent_none _hNone ihNone =>
      cases hOther with
      | absent_none _hNone => rfl
      | absent_some hSome => cases ihNone hSome
  | absent_some _hSome ihSome =>
      cases hOther with
      | absent_none hNone => cases ihSome hNone
      | absent_some _hSome => rfl
  | @named_some part e chars rest ts _hSome ihSome =>
      -- The text is the match and the rest, so that an equal
      -- rest leaves only one match.
      generalize hText : chars ++ rest = cs at hOther
      cases hOther with
      | @named_some _ _ chars' rest' ts' hSome =>
          rw [← hText] at hSome
          cases ihSome hSome
          cases List.append_cancel_right hText
          rfl
      | named_none hNone =>
          rw [← hText] at hNone
          cases ihSome hNone
  | named_none _hNone ihNone =>
      cases hOther with
      | named_some hSome => cases ihNone hSome
      | named_none _hNone => rfl

/-
  The repetition of an expression that takes one character of a
  class takes all characters of the class in front.
-/
theorem evaluates_star_dropWhile
    {e : Peg}
    {p : Char → Bool}
    (hTakes :
      ∀ c cs, p c = true →
        Evaluates e (c :: cs) (some ([], cs)))
    (hFails :
      ∀ cs, (∀ c ∈ cs.head?, p c = false) →
        Evaluates e cs none)
    (cs : List Char) :
    Evaluates (.star e) cs (some ([], cs.dropWhile p)) := by
  induction cs with
  | nil =>
      apply Evaluates.star_none
      apply hFails
      intro c hc
      cases hc
  | cons c cs ih =>
      rw [List.dropWhile_cons]
      split
      · next hClass =>
          exact .star_some (hTakes c cs hClass) ih
      · next hClass =>
          apply Evaluates.star_none
          apply hFails
          intro d hd
          cases hd
          exact Bool.eq_false_iff.mpr hClass

/- A character that is not forbidden is taken. -/
theorem evaluates_absent_any
    {e : Peg}
    {c : Char}
    {cs : List Char}
    (hNone : Evaluates e (c :: cs) none) :
    Evaluates (.seq (.absent e) .any) (c :: cs)
      (some ([], cs)) :=
  .seq_some (.absent_none hNone) .any_cons

/- Nothing is taken where something forbidden stands. -/
theorem evaluates_absent_any_of_some
    {e : Peg}
    {cs rest : List Char}
    {ts : List Tree}
    (hSome : Evaluates e cs (some (ts, rest))) :
    Evaluates (.seq (.absent e) .any) cs none :=
  .seq_first (.absent_some hSome)

/- Nothing is taken at the end of a text. -/
theorem evaluates_absent_any_nil
    {e : Peg}
    (hNone : Evaluates e [] none) :
    Evaluates (.seq (.absent e) .any) [] none :=
  .seq_second (.absent_none hNone) .any_nil

/- Another character does not match. -/
theorem evaluates_char_of_ne
    {c d : Char}
    (hNe : d ≠ c)
    (cs : List Char) :
    Evaluates (.char c) (d :: cs) none := by
  apply Evaluates.char_other
  intro hHead
  exact hNe (Option.some.inj hHead)

/- What was matched is kept under its name. -/
theorem evaluates_named
    {part : Part}
    {e : Peg}
    {cs chars rest : List Char}
    {ts : List Tree}
    (hText : chars ++ rest = cs)
    (hSome : Evaluates e cs (some (ts, rest))) :
    Evaluates (.named part e) cs
      (some ([.node part chars ts], rest)) := by
  subst hText
  exact .named_some hSome

/- No character matches at the end of a text. -/
theorem evaluates_char_nil
    (c : Char) :
    Evaluates (.char c) [] none := by
  apply Evaluates.char_other
  intro hHead
  cases hHead

end Peg

------------------------------------------------------------
-- The Grammar
------------------------------------------------------------

namespace Grammar

/- Spaces and tabs around a quoted field. -/
def padding : Peg :=
  .star (.choice (.char ' ') (.char '\t'))

/- A line end. -/
def newline : Peg :=
  .choice (.char '\n')
    (.choice (.seq (.char '\r') (.char '\n')) (.char '\r'))

/- A doubled quote, or a character that is no quote. -/
def bodyItem : Peg :=
  .choice (.seq (.char '"') (.char '"'))
    (.seq (.absent (.char '"')) .any)

/- What may stand between quotes. -/
def body : Peg :=
  .named .body (.star bodyItem)

/- A body between quotes. -/
def quoted : Peg :=
  .named .quoted (.seq (.char '"') (.seq body (.char '"')))

/- What ends a field without quotes. -/
def bareEnd : Peg :=
  .choice (.char ',') (.choice (.char '"') newline)

/- Characters up to a comma, a quote or a line end. -/
def bare : Peg :=
  .named .bare (.star (.seq (.absent bareEnd) .any))

/- A quoted field with its padding, or else a bare one. -/
def field : Peg :=
  .named .field
    (.choice (.seq padding (.seq quoted padding)) bare)

/- Fields with commas between them. -/
def record : Peg :=
  .named .record
    (.seq field (.star (.seq (.char ',') field)))

/- The end of the text. -/
def textEnd : Peg :=
  .named .textEnd (.absent .any)

/- Records with line ends between them, up to the end of the text. -/
def description : Peg :=
  .named .description
    (.seq record
      (.seq (.star (.seq newline record)) textEnd))

/- The grammar reads the whole text as this tree. -/
def Parses
    (text : List Char)
    (tree : Tree) : Prop :=
  description.Evaluates text (some ([tree], []))

end Grammar

------------------------------------------------------------
-- Trees
------------------------------------------------------------

/- The tree of a field. -/
def RawField.tree : RawField → Tree
  | quoted before body after =>
      .node .field (RawField.quoted before body after).raw
        [.node .quoted ('"' :: (encodeQuotes body ++ ['"']))
          [.node .body (encodeQuotes body) []]]
  | bare chars => .node .field chars [.node .bare chars []]

/- The tree of a record. -/
def Record.tree
    (r : Record) : Tree :=
  .node .record r.raw (r.fields.map RawField.tree)

/- The tree of a cut. -/
def Cut.tree
    (c : Cut) : Tree :=
  .node .description c.raw
    (c.records.map Record.tree ++ [.node .textEnd [] []])

------------------------------------------------------------
-- Fields
------------------------------------------------------------

namespace Grammar

open Peg

/- Padding is taken as a whole. -/
theorem evaluates_padding
    (cs : List Char) :
    padding.Evaluates cs
      (some ([], cs.dropWhile isPadding)) := by
  apply evaluates_star_dropWhile
  · intro c cs hPadding
    unfold isPadding at hPadding
    simp only [Bool.or_eq_true, decide_eq_true_eq] at hPadding
    rcases hPadding with rfl | rfl
    · exact .choice_first .char_cons
    · refine .choice_second ?_ .char_cons
      exact evaluates_char_of_ne (by decide) cs
  · intro cs hOther
    have hNe :
        ∀ d, isPadding d = true → cs.head? ≠ some d := by
      intro d hPadding hHead
      have hFalse := hOther d hHead
      rw [hPadding] at hFalse
      cases hFalse
    exact
      .choice_second (.char_other (hNe ' ' rfl))
        (.char_other (hNe '\t' rfl))

/- A line end is taken as it is read, the longer one first. -/
theorem evaluates_newline_of_scanNewline_eq_some
    {cs rest : List Char}
    {n : Newline}
    (hSome : scanNewline cs = some (n, rest)) :
    newline.Evaluates cs (some ([], rest)) := by
  unfold scanNewline at hSome
  split at hSome
  · cases hSome
    refine .choice_second ?_ (.choice_first ?_)
    · exact evaluates_char_of_ne (by decide) _
    · exact .seq_some .char_cons .char_cons
  · next hNot =>
      cases hSome
      refine .choice_second ?_ (.choice_second ?_ .char_cons)
      · exact evaluates_char_of_ne (by decide) _
      · refine .seq_second .char_cons (.char_other ?_)
        intro hHead
        rcases List.head?_eq_some_iff.mp hHead with
          ⟨tail, hTail⟩
        exact hNot tail hTail
  · cases hSome
    exact .choice_first .char_cons
  · cases hSome

/- There is no line end where none is read. -/
theorem evaluates_newline_of_head?
    {cs : List Char}
    (hCr : cs.head? ≠ some '\r')
    (hLf : cs.head? ≠ some '\n') :
    newline.Evaluates cs none :=
  .choice_second (.char_other hLf)
    (.choice_second (.seq_first (.char_other hCr))
      (.char_other hCr))

/- Without a line end none begins the text. -/
theorem head?_ne_of_scanNewline_eq_none
    {cs : List Char}
    (hNone : scanNewline cs = none) :
    cs.head? ≠ some '\r' ∧ cs.head? ≠ some '\n' := by
  unfold scanNewline at hNone
  split at hNone
  · cases hNone
  · cases hNone
  · cases hNone
  · next hCrLf hCr hLf =>
      constructor
      · intro hHead
        rcases List.head?_eq_some_iff.mp hHead with
          ⟨tail, hTail⟩
        exact hCr tail hTail
      · intro hHead
        rcases List.head?_eq_some_iff.mp hHead with
          ⟨tail, hTail⟩
        exact hLf tail hTail

/-
  A body goes on as long as it can: to its closing quote, or to
  the end of the text if there is none.
-/
theorem evaluates_star_body
    (cs : List Char) :
    (Peg.star bodyItem).Evaluates cs
      (some
        ([],
          match scanBody cs with
          | some (_, rest) => '"' :: rest
          | none => [])) := by
  fun_induction scanBody cs with
  | case1 =>
      apply Evaluates.star_none
      exact
        .choice_second (.seq_first (evaluates_char_nil '"'))
          (evaluates_absent_any_nil (evaluates_char_nil '"'))
  | case2 rest ih =>
      have hOnce :
          bodyItem.Evaluates ('"' :: '"' :: rest)
            (some ([], rest)) :=
        .choice_first (.seq_some .char_cons .char_cons)
      have hStar := Evaluates.star_some hOnce ih
      cases hBody : scanBody rest with
      | none => simpa [hBody] using hStar
      | some p => simpa [hBody] using hStar
  | case3 rest hNot =>
      apply Evaluates.star_none
      refine .choice_second (.seq_second .char_cons ?_) ?_
      · apply Evaluates.char_other
        intro hHead
        rcases List.head?_eq_some_iff.mp hHead with
          ⟨tail, hTail⟩
        exact hNot tail hTail
      · exact evaluates_absent_any_of_some .char_cons
  | case4 c rest hDouble hSingle ih =>
      have hNe : c ≠ '"' := by
        intro hQuote
        exact hSingle hQuote
      have hOther := evaluates_char_of_ne hNe rest
      have hOnce :
          bodyItem.Evaluates (c :: rest) (some ([], rest)) :=
        .choice_second (.seq_first hOther)
          (evaluates_absent_any hOther)
      have hStar := Evaluates.star_some hOnce ih
      cases hBody : scanBody rest with
      | none => simpa [hBody] using hStar
      | some p => simpa [hBody] using hStar

/- A body is taken up to its closing quote. -/
theorem evaluates_body_of_scanBody_eq_some
    {cs text rest : List Char}
    (hBody : scanBody cs = some (text, rest)) :
    body.Evaluates cs
      (some
        ([.node .body (encodeQuotes text) []],
          '"' :: rest)) := by
  have hStar := evaluates_star_body cs
  rw [hBody] at hStar
  exact evaluates_named (raw_scanBody hBody) hStar

/- A body without a closing quote takes the rest of the text. -/
theorem evaluates_body_of_scanBody_eq_none
    {cs : List Char}
    (hBody : scanBody cs = none) :
    body.Evaluates cs (some ([.node .body cs []], [])) := by
  have hStar := evaluates_star_body cs
  rw [hBody] at hStar
  exact evaluates_named (List.append_nil cs) hStar

/- A quoted text is taken with both of its quotes. -/
theorem evaluates_quoted_of_scanBody_eq_some
    {cs text rest : List Char}
    (hBody : scanBody cs = some (text, rest)) :
    quoted.Evaluates ('"' :: cs)
      (some
        ([.node .quoted ('"' :: (encodeQuotes text ++ ['"']))
            [.node .body (encodeQuotes text) []]],
          rest)) := by
  refine evaluates_named ?_ ?_
  · rw [← raw_scanBody hBody]
    simp
  · exact
      .seq_some .char_cons
        (.seq_some (evaluates_body_of_scanBody_eq_some hBody)
          .char_cons)

/- Nothing is quoted without a closing quote. -/
theorem evaluates_quoted_of_scanBody_eq_none
    {cs : List Char}
    (hBody : scanBody cs = none) :
    quoted.Evaluates ('"' :: cs) none := by
  refine .named_none (.seq_second .char_cons ?_)
  exact
    .seq_second (evaluates_body_of_scanBody_eq_none hBody)
      (evaluates_char_nil '"')

/- A bare field does not end with a character that may stand in it. -/
theorem evaluates_bareEnd_of_isBare
    {c : Char}
    (hBare : isBare c = true)
    (cs : List Char) :
    bareEnd.Evaluates (c :: cs) none := by
  have hHead :
      ∀ d, isBare d = false → (c :: cs).head? ≠ some d := by
    intro d hEnds hEq
    cases hEq
    rw [hEnds] at hBare
    cases hBare
  refine .choice_second (.char_other (hHead ',' rfl)) ?_
  refine .choice_second (.char_other (hHead '"' rfl)) ?_
  exact
    evaluates_newline_of_head? (hHead '\r' rfl)
      (hHead '\n' rfl)

/- Nothing ends at the end of a text. -/
theorem evaluates_bareEnd_nil :
    bareEnd.Evaluates [] none := by
  refine .choice_second (evaluates_char_nil ',') ?_
  refine .choice_second (evaluates_char_nil '"') ?_
  apply evaluates_newline_of_head?
  · intro hHead
    cases hHead
  · intro hHead
    cases hHead

/- A bare field ends with any other character. -/
theorem exists_evaluates_bareEnd
    {c : Char}
    (hEnds : isBare c = false)
    (cs : List Char) :
    ∃ rest,
      bareEnd.Evaluates (c :: cs) (some ([], rest)) := by
  by_cases hComma : c = ','
  · subst hComma
    exact ⟨cs, .choice_first .char_cons⟩
  · have hNoComma := evaluates_char_of_ne hComma cs
    by_cases hQuote : c = '"'
    · subst hQuote
      exact
        ⟨cs,
          .choice_second hNoComma (.choice_first .char_cons)⟩
    · have hNoQuote := evaluates_char_of_ne hQuote cs
      cases hNewline : scanNewline (c :: cs) with
      | some p =>
          exact
            ⟨p.2,
              .choice_second hNoComma
                (.choice_second hNoQuote
                  (evaluates_newline_of_scanNewline_eq_some
                    hNewline))⟩
      | none =>
          rcases head?_ne_of_scanNewline_eq_none hNewline with
            ⟨hCr, hLf⟩
          have hNoCr : c ≠ '\r' := fun h => hCr (by rw [h]; rfl)
          have hNoLf : c ≠ '\n' := fun h => hLf (by rw [h]; rfl)
          simp [isBare, hComma, hQuote, hNoCr, hNoLf] at hEnds

/- A bare field goes on as long as it can. -/
theorem evaluates_bare
    (cs : List Char) :
    bare.Evaluates cs
      (some
        ([.node .bare (cs.takeWhile isBare) []],
          cs.dropWhile isBare)) := by
  refine
    evaluates_named List.takeWhile_append_dropWhile
      (evaluates_star_dropWhile ?_ ?_ cs)
  · intro c cs hBare
    exact
      evaluates_absent_any (evaluates_bareEnd_of_isBare hBare cs)
  · intro cs hEnds
    cases cs with
    | nil => exact evaluates_absent_any_nil evaluates_bareEnd_nil
    | cons c cs =>
        rcases exists_evaluates_bareEnd (hEnds c rfl) cs with
          ⟨rest, hEnd⟩
        exact evaluates_absent_any_of_some hEnd

/- Where no quoted field is read, there is none. -/
theorem evaluates_quoted_of_scanQuoted_eq_none
    {cs : List Char}
    (hNone : scanQuoted cs = none) :
    quoted.Evaluates (cs.dropWhile isPadding) none := by
  unfold scanQuoted at hNone
  split at hNone
  · next rest hDrop =>
      rw [hDrop]
      exact
        evaluates_quoted_of_scanBody_eq_none
          (Option.map_eq_none_iff.mp hNone)
  · next hNot =>
      refine .named_none (.seq_first (.char_other ?_))
      intro hHead
      rcases List.head?_eq_some_iff.mp hHead with
        ⟨tail, hTail⟩
      exact hNot tail hTail

/- A field is taken as it is read: quoted if possible. -/
theorem evaluates_field
    (cs : List Char) :
    field.Evaluates cs
      (some
        ([(scanField cs).1.tree], (scanField cs).2)) := by
  have hRaw := raw_scanField cs
  have hPadding := evaluates_padding cs
  unfold scanField at hRaw ⊢
  cases hQuoted : scanQuoted cs with
  | none =>
      rw [hQuoted] at hRaw
      have hFirst :=
        evaluates_quoted_of_scanQuoted_eq_none hQuoted
      refine evaluates_named hRaw ?_
      exact
        .choice_second
          (.seq_second hPadding (.seq_first hFirst))
          (evaluates_bare cs)
  | some p =>
      rw [hQuoted] at hRaw
      unfold scanQuoted at hQuoted
      split at hQuoted
      · next tail hDrop =>
          rcases Option.map_eq_some_iff.mp hQuoted with
            ⟨⟨text, after⟩, hBody, rfl⟩
          rw [hDrop] at hPadding
          refine evaluates_named hRaw (.choice_first ?_)
          exact
            .seq_some hPadding
              (.seq_some
                (evaluates_quoted_of_scanBody_eq_some hBody)
                (evaluates_padding after))
      · cases hQuoted

------------------------------------------------------------
-- Records
------------------------------------------------------------

/- Fields after commas are taken as they are read. -/
theorem evaluates_star_fields
    (cs : List Char) :
    (Peg.star (.seq (.char ',') field)).Evaluates cs
      (some
        ((scanFields cs).1.map RawField.tree,
          (scanFields cs).2)) := by
  fun_induction scanFields cs with
  | case1 rest first more ih =>
      have hOnce :
          (Peg.seq (.char ',') field).Evaluates (',' :: rest)
            (some ([first.1.tree], first.2)) :=
        .seq_some .char_cons (evaluates_field rest)
      exact .star_some hOnce ih
  | case2 cs hNot =>
      refine .star_none (.seq_first (.char_other ?_))
      intro hHead
      rcases List.head?_eq_some_iff.mp hHead with
        ⟨tail, hTail⟩
      exact hNot tail hTail

/- A record is taken as it is read. -/
theorem evaluates_record
    (cs : List Char) :
    record.Evaluates cs
      (some
        ([(scanRecord cs).1.tree], (scanRecord cs).2)) := by
  refine evaluates_named (raw_scanRecord cs) ?_
  exact
    .seq_some (evaluates_field cs) (evaluates_star_fields _)

------------------------------------------------------------
-- Texts
------------------------------------------------------------

/- Records after line ends are taken as they are read. -/
theorem evaluates_star_records
    (cs : List Char) :
    (Peg.star (.seq newline record)).Evaluates cs
      (some
        ((scanRecords cs).1.map fun p => p.2.tree,
          (scanRecords cs).2)) := by
  fun_induction scanRecords cs with
  | case1 cs end_ rest hNewline first more ih =>
      have hOnce :
          (Peg.seq newline record).Evaluates cs
            (some ([first.1.tree], first.2)) :=
        .seq_some
          (evaluates_newline_of_scanNewline_eq_some hNewline)
          (evaluates_record rest)
      exact .star_some hOnce ih
  | case2 cs hNewline =>
      rcases head?_ne_of_scanNewline_eq_none hNewline with
        ⟨hCr, hLf⟩
      exact
        .star_none
          (.seq_first (evaluates_newline_of_head? hCr hLf))

/- The end of a text is found where nothing is left. -/
theorem evaluates_textEnd_nil :
    textEnd.Evaluates [] (some ([.node .textEnd [] []], [])) :=
  evaluates_named rfl (.absent_none .any_nil)

/- It is not found elsewhere. -/
theorem evaluates_textEnd_of_ne_nil
    {cs : List Char}
    (hMore : cs ≠ []) :
    textEnd.Evaluates cs none := by
  cases cs with
  | nil => exact absurd rfl hMore
  | cons c cs => exact .named_none (.absent_some .any_cons)

/-
  The grammar takes a text as it is read, and fails if anything
  of it is left.
-/
theorem evaluates_description
    (text : List Char) :
    description.Evaluates text
      (if (scan text).2 = [] then
        some ([(scan text).1.tree], [])
      else
        none) := by
  have hRecord := evaluates_record text
  have hRecords := evaluates_star_records (scanRecord text).2
  split
  · next hAll =>
      have hRaw := raw_scan text
      rw [hAll, List.append_nil] at hRaw
      have hLeft : (scanRecords (scanRecord text).2).2 = [] :=
        hAll
      rw [hLeft] at hRecords
      have hTrees :
          (scan text).1.records.map Record.tree ++
              [Tree.node .textEnd [] []] =
            [(scanRecord text).1.tree] ++
              (((scanRecords (scanRecord text).2).1.map
                fun p => p.2.tree) ++
                [Tree.node .textEnd [] []]) := by
        simp [scan, Cut.records]
      unfold Cut.tree
      rw [hTrees]
      refine evaluates_named ?_ ?_
      · rw [List.append_nil]
        exact hRaw
      · exact
          .seq_some hRecord
            (.seq_some hRecords evaluates_textEnd_nil)
  · next hLeft =>
      refine .named_none (.seq_second hRecord ?_)
      exact
        .seq_second hRecords (evaluates_textEnd_of_ne_nil hLeft)

/- The grammar reads a text as a tree exactly when it can be cut. -/
theorem parses_iff
    {text : List Char}
    {tree : Tree} :
    Parses text tree ↔
      ∃ c, Cut.ofText? text = some c ∧ tree = c.tree := by
  have hScan := evaluates_description text
  unfold Cut.ofText?
  constructor
  · intro hParses
    have hSame := hParses.unique hScan
    split at hSame
    · next hAll =>
        cases hSame
        exact ⟨_, if_pos hAll, rfl⟩
    · cases hSame
  · intro hParts
    rcases hParts with ⟨c, hCut, rfl⟩
    split at hCut
    · next hAll =>
        cases hCut
        rw [if_pos hAll] at hScan
        exact hScan
    · cases hCut

end Grammar

end MultiTape.Csv
