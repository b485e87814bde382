import MultiTape.Proofs.Csv.Grammar
import MultiTape.Proofs.Csv.Writing

/-
  This file describes the language of comma separated text by
  its pieces alone: raw fields, the commas between them, and
  the line ends between records. It shows that the grammar
  accepts a text exactly when the text can be cut into such
  pieces, and which of the cuts it finds.

  Key definitions include:
    * `undouble`
    * `IsBody`
    * `IsRawField`
    * `Pieces`
    * `Pieces.join`
    * `Pieces.Unsplit`
    * `Pieces.IsCutOf`
    * `Tree.fieldText`

  Main statements:
    * `ofText?_join`
    * `Pieces.WellFormed.exists_unsplit`
    * `grammar_finds_the_unsplit_cut`
-/

namespace MultiTape.Csv

------------------------------------------------------------
-- Bodies
------------------------------------------------------------

/- Two quotes in a row become one, from the front. -/
def undouble : List Char → List Char
  | '"' :: '"' :: rest => '"' :: undouble rest
  | c :: rest => c :: undouble rest
  | [] => []

/- Doubled quotes and characters that are no quotes. -/
inductive IsBody : List Char → Prop where
  | nil :
      IsBody []
  | doubled
      {rest : List Char}
      (hRest : IsBody rest) :
      IsBody ('"' :: '"' :: rest)
  | other
      {c : Char}
      {rest : List Char}
      (hOther : c ≠ '"')
      (hRest : IsBody rest) :
      IsBody (c :: rest)

/- A text with its quotes doubled is a body. -/
theorem isBody_encodeQuotes
    (text : List Char) :
    IsBody (encodeQuotes text) := by
  induction text with
  | nil => exact .nil
  | cons c text ih =>
      unfold encodeQuotes
      split
      · exact .doubled ih
      · next hOther => exact .other hOther ih

/- Doubling and then undoubling changes nothing. -/
theorem undouble_encodeQuotes
    (text : List Char) :
    undouble (encodeQuotes text) = text := by
  induction text with
  | nil => rfl
  | cons c text ih =>
      by_cases hQuote : c = '"'
      · subst hQuote
        simp [encodeQuotes, undouble, ih]
      · simp [encodeQuotes, undouble, hQuote, ih]

/- A body is the text it stands for with its quotes doubled. -/
theorem IsBody.encodeQuotes_undouble
    {body : List Char}
    (hBody : IsBody body) :
    encodeQuotes (undouble body) = body := by
  induction hBody with
  | nil => rfl
  | doubled _hRest ih =>
      simp [undouble, encodeQuotes, ih]
  | other hOther _hRest ih =>
      simp [undouble, encodeQuotes, hOther, ih]

------------------------------------------------------------
-- Raw Fields
------------------------------------------------------------

/- A body between quotes, with spaces and tabs around them. -/
def IsQuoted
    (body raw : List Char) : Prop :=
  IsBody body ∧
    ∃ before after,
      (∀ c ∈ before, c = ' ' ∨ c = '\t') ∧
      (∀ c ∈ after, c = ' ' ∨ c = '\t') ∧
      raw = before ++ '"' :: body ++ '"' :: after

/- No comma, no quote and no line end. -/
def IsUnquoted
    (raw : List Char) : Prop :=
  ∀ c ∈ raw, c ≠ ',' ∧ c ≠ '"' ∧ c ≠ '\r' ∧ c ≠ '\n'

/- What may stand between two separators. -/
def IsRawField
    (raw : List Char) : Prop :=
  (∃ body, IsQuoted body raw) ∨ IsUnquoted raw

/- Padding is made of spaces and tabs. -/
theorem isPadding_iff
    {c : Char} :
    isPadding c = true ↔ c = ' ' ∨ c = '\t' := by
  simp [isPadding]

/- The characters of a bare field are those that end no field. -/
theorem isBare_iff
    {c : Char} :
    isBare c = true ↔
      c ≠ ',' ∧ c ≠ '"' ∧ c ≠ '\r' ∧ c ≠ '\n' := by
  simp [isBare, and_assoc]

/- The field that a raw field is read as. -/
def RawField.ofRaw
    (raw : List Char) : RawField :=
  (scanField raw).1

/- A field is read back from its own characters. -/
theorem RawField.WellFormed.ofRaw_raw
    {f : RawField}
    (hField : f.WellFormed) :
    RawField.ofRaw f.raw = f := by
  have hEnds : EndsField [] := by
    intro c hc
    cases hc
  have hScan := scanField_raw_append hField hEnds
  rw [List.append_nil] at hScan
  unfold RawField.ofRaw
  rw [hScan]

/- A quoted raw field is read as the text of its body. -/
theorem IsQuoted.text_ofRaw
    {body raw : List Char}
    (hQuoted : IsQuoted body raw) :
    (RawField.ofRaw raw).raw = raw ∧
      (RawField.ofRaw raw).text = undouble body := by
  rcases hQuoted with
    ⟨hBody, before, after, hBefore, hAfter, rfl⟩
  have hField :
      (RawField.quoted before (undouble body) after).WellFormed :=
    ⟨fun c hc => isPadding_iff.mpr (hBefore c hc),
      fun c hc => isPadding_iff.mpr (hAfter c hc)⟩
  have hRaw :
      (RawField.quoted before (undouble body) after).raw =
        before ++ '"' :: body ++ '"' :: after := by
    simp only [RawField.raw, hBody.encodeQuotes_undouble]
  rw [← hRaw, hField.ofRaw_raw]
  exact ⟨rfl, rfl⟩

/- Any other raw field is read as what is left after trimming. -/
theorem IsUnquoted.text_ofRaw
    {raw : List Char}
    (hUnquoted : IsUnquoted raw) :
    (RawField.ofRaw raw).raw = raw ∧
      (RawField.ofRaw raw).text = Text.trim raw := by
  have hField : (RawField.bare raw).WellFormed :=
    fun c hc => isBare_iff.mpr (hUnquoted c hc)
  have hOfRaw : RawField.ofRaw raw = .bare raw :=
    hField.ofRaw_raw
  rw [hOfRaw]
  exact ⟨rfl, rfl⟩

/- A raw field is read to its end. -/
theorem IsRawField.raw_ofRaw
    {raw : List Char}
    (hRaw : IsRawField raw) :
    (RawField.ofRaw raw).raw = raw := by
  rcases hRaw with ⟨body, hQuoted⟩ | hUnquoted
  · exact hQuoted.text_ofRaw.1
  · exact hUnquoted.text_ofRaw.1

/- The characters of a field are a raw field. -/
theorem RawField.WellFormed.isRawField
    {f : RawField}
    (hField : f.WellFormed) :
    IsRawField f.raw := by
  cases f with
  | quoted before body after =>
      rcases hField with ⟨hBefore, hAfter⟩
      refine .inl ⟨encodeQuotes body, ?_⟩
      exact
        ⟨isBody_encodeQuotes body, before, after,
          fun c hc => isPadding_iff.mp (hBefore c hc),
          fun c hc => isPadding_iff.mp (hAfter c hc), rfl⟩
  | bare chars =>
      exact .inr fun c hc => isBare_iff.mp (hField c hc)

/- Raw fields are what is read back as it was written. -/
theorem isRawField_iff
    {raw : List Char} :
    IsRawField raw ↔ (RawField.ofRaw raw).raw = raw := by
  constructor
  · exact IsRawField.raw_ofRaw
  · intro hRaw
    rw [← hRaw]
    exact (wellFormed_scanField raw).isRawField

instance
    (raw : List Char) :
    Decidable (IsRawField raw) :=
  decidable_of_iff _ isRawField_iff.symm

/- The text of a field is told by its characters. -/
theorem RawField.WellFormed.text_eq
    {f : RawField}
    (hField : f.WellFormed) :
    (∀ body, IsQuoted body f.raw → f.text = undouble body) ∧
      (IsUnquoted f.raw → f.text = Text.trim f.raw) := by
  constructor
  · intro body hQuoted
    rw [← hQuoted.text_ofRaw.2, hField.ofRaw_raw]
  · intro hUnquoted
    rw [← hUnquoted.text_ofRaw.2, hField.ofRaw_raw]

------------------------------------------------------------
-- Pieces
------------------------------------------------------------

/-
  A text in pieces: the raw fields of each record, and the line
  end in front of each record but the first.
-/
structure Pieces where
  first : List (List Char)
  rest : List (Newline × List (List Char))
  deriving DecidableEq, Repr

namespace Pieces

/- The raw fields of all records. -/
def records
    (p : Pieces) : List (List (List Char)) :=
  p.first :: p.rest.map Prod.snd

/- Raw fields with a comma between each two. -/
def joinFields
    (raws : List (List Char)) : List Char :=
  [','].intercalate raws

/- The pieces one after the other, with what separates them. -/
def join
    (p : Pieces) : List Char :=
  joinFields p.first ++
    p.rest.flatMap fun q => q.1.raw ++ joinFields q.2

/- Every record has a field, and nothing but raw fields. -/
def WellFormed
    (p : Pieces) : Prop :=
  ∀ raws ∈ p.records,
    raws ≠ [] ∧ ∀ raw ∈ raws, IsRawField raw

instance
    (p : Pieces) :
    Decidable p.WellFormed :=
  inferInstanceAs
    (Decidable
      (∀ raws ∈ p.records,
        raws ≠ [] ∧ ∀ raw ∈ raws, IsRawField raw))

/-
  No carriage return stands in front of a line feed with only
  an empty record between them.
-/
def Unsplit
    (p : Pieces) : Prop :=
  p.rest.IsChain fun q r =>
    ¬(q.1 = .cr ∧ q.2 = [[]] ∧ r.1 = .lf)

/- The one way to take a text in pieces with whole line ends. -/
structure IsCutOf
    (text : List Char)
    (p : Pieces) : Prop where
  wellFormed : p.WellFormed
  unsplit : p.Unsplit
  join : p.join = text
  unique :
    ∀ q : Pieces,
      q.WellFormed → q.Unsplit → q.join = text → q = p

end Pieces

/- The raw fields of a record. -/
def Record.raws
    (r : Record) : List (List Char) :=
  r.fields.map RawField.raw

/- The pieces of a cut. -/
def Cut.pieces
    (c : Cut) : Pieces :=
  ⟨c.first.raws, c.rest.map fun q => (q.1, q.2.raws)⟩

/- The records of a cut are the records of its pieces. -/
theorem Cut.records_pieces
    (c : Cut) :
    c.pieces.records = c.records.map Record.raws := by
  simp [Cut.pieces, Pieces.records, Cut.records]

/- Raw fields are joined to the characters of their record. -/
theorem Record.joinFields_raws
    (r : Record) :
    Pieces.joinFields r.raws = r.raw := by
  rcases r with ⟨first, rest⟩
  induction rest generalizing first with
  | nil =>
      simp [Pieces.joinFields, Record.raws, Record.fields,
        Record.raw]
  | cons f rest ih =>
      have hRest := ih f
      simp only [Pieces.joinFields, Record.raws,
        Record.fields, Record.raw, List.map_cons,
        List.flatMap_cons] at hRest ⊢
      rw [List.intercalate_cons_cons, hRest]
      simp

/- The pieces of a cut are joined to its characters. -/
theorem Cut.join_pieces
    (c : Cut) :
    c.pieces.join = c.raw := by
  simp [Cut.pieces, Pieces.join, Cut.raw,
    Record.joinFields_raws, List.flatMap_map]

/- The pieces of a well formed cut are well formed. -/
theorem Cut.WellFormed.pieces
    {c : Cut}
    (hCut : c.WellFormed) :
    c.pieces.WellFormed := by
  intro raws hRaws
  rw [Cut.records_pieces] at hRaws
  rcases List.mem_map.mp hRaws with ⟨r, hRecord, rfl⟩
  constructor
  · exact List.cons_ne_nil _ _
  · intro raw hRaw
    rcases List.mem_map.mp hRaw with ⟨f, hField, rfl⟩
    exact (hCut r hRecord f hField).isRawField

------------------------------------------------------------
-- From Pieces to Cuts
------------------------------------------------------------

/- A list is found again if each of its items is. -/
theorem map_map_eq_self
    {α β : Type}
    {f : α → β}
    {g : β → α}
    {items : List α}
    (hBack : ∀ a ∈ items, g (f a) = a) :
    (items.map f).map g = items := by
  rw [List.map_map, List.map_congr_left (g := id)]
  · exact List.map_id items
  · exact hBack

/- The record that raw fields are read as. -/
def Record.ofRaws : List (List Char) → Record
  | [] => ⟨.bare [], []⟩
  | raw :: raws =>
      ⟨RawField.ofRaw raw, raws.map RawField.ofRaw⟩

/- The cut that pieces are read as. -/
def Pieces.cut
    (p : Pieces) : Cut :=
  ⟨Record.ofRaws p.first,
    p.rest.map fun q => (q.1, Record.ofRaws q.2)⟩

/- Raw fields are the fields of the record they are read as. -/
theorem Record.raws_ofRaws
    {raws : List (List Char)}
    (hNonempty : raws ≠ [])
    (hRaws : ∀ raw ∈ raws, IsRawField raw) :
    (Record.ofRaws raws).raws = raws := by
  cases raws with
  | nil => exact absurd rfl hNonempty
  | cons raw raws =>
      have hMap :
          ((raw :: raws).map RawField.ofRaw).map
              RawField.raw =
            raw :: raws :=
        map_map_eq_self fun r hr => (hRaws r hr).raw_ofRaw
      exact hMap

/- Pieces are the pieces of the cut they are read as. -/
theorem Pieces.WellFormed.pieces_cut
    {p : Pieces}
    (hPieces : p.WellFormed) :
    p.cut.pieces = p := by
  rcases p with ⟨first, rest⟩
  have hFirst := hPieces first List.mem_cons_self
  have hRest :
      ∀ q ∈ rest, (q.1, (Record.ofRaws q.2).raws) = q := by
    intro q hq
    have hRecord :=
      hPieces q.2
        (List.mem_cons_of_mem _ (List.mem_map_of_mem hq))
    rw [Record.raws_ofRaws hRecord.1 hRecord.2]
  have hMap :
      (rest.map fun q => (q.1, Record.ofRaws q.2)).map
          (fun q => (q.1, q.2.raws)) =
        rest :=
    map_map_eq_self hRest
  unfold Pieces.cut Cut.pieces
  rw [Record.raws_ofRaws hFirst.1 hFirst.2, hMap]

/- Whatever raw fields are read as is well formed. -/
theorem Record.wellFormed_ofRaws
    (raws : List (List Char)) :
    (Record.ofRaws raws).WellFormed := by
  intro f hf
  cases raws with
  | nil =>
      rw [List.mem_singleton.mp hf]
      intro c hc
      cases hc
  | cons raw raws =>
      have hMem :
          f ∈ (raw :: raws).map RawField.ofRaw := hf
      rcases List.mem_map.mp hMem with ⟨r, _hr, rfl⟩
      exact wellFormed_scanField r

/- Whatever pieces are read as is well formed. -/
theorem Pieces.wellFormed_cut
    (p : Pieces) :
    p.cut.WellFormed := by
  intro r hr
  rcases List.mem_cons.mp hr with rfl | hr
  · exact Record.wellFormed_ofRaws p.first
  · rw [Pieces.cut, List.map_map] at hr
    rcases List.mem_map.mp hr with ⟨q, _hq, rfl⟩
    exact Record.wellFormed_ofRaws q.2

/- A record without characters has one field, which is empty. -/
theorem Record.raws_eq_of_raw_eq_nil
    {r : Record}
    (hRaw : r.raw = []) :
    r.raws = [[]] := by
  rcases r with ⟨first, rest⟩
  cases rest with
  | nil =>
      simp_all [Record.raw, Record.raws, Record.fields]
  | cons f rest => simp [Record.raw] at hRaw

/- Pieces with whole line ends are read as records with whole line ends. -/
theorem Pieces.Unsplit.cut
    {p : Pieces}
    (hPieces : p.WellFormed)
    (hUnsplit : p.Unsplit) :
    Csv.Unsplit p.cut.rest := by
  have hCut : p.cut.pieces.Unsplit := by
    rw [hPieces.pieces_cut]
    exact hUnsplit
  unfold Pieces.Unsplit Cut.pieces at hCut
  rw [List.isChain_map] at hCut
  refine hCut.imp ?_
  intro q r hNext hCr hRaw hLf
  exact hNext ⟨hCr, Record.raws_eq_of_raw_eq_nil hRaw, hLf⟩

/- Joined pieces with whole line ends are cut where they were joined. -/
theorem ofText?_join
    {p : Pieces}
    (hPieces : p.WellFormed)
    (hUnsplit : p.Unsplit) :
    Cut.ofText? p.join = some p.cut := by
  have hScan := scan_raw p.wellFormed_cut (hUnsplit.cut hPieces)
  rw [← Cut.join_pieces, hPieces.pieces_cut] at hScan
  unfold Cut.ofText?
  rw [hScan]
  rfl

------------------------------------------------------------
-- Whole Line Ends
------------------------------------------------------------

namespace Pieces

/-
  Take a carriage return and a line feed with only an empty
  record between them for one line end.
-/
def mergeEnds :
    List (Newline × List (List Char)) →
      List (Newline × List (List Char))
  | (.cr, [[]]) :: (.lf, raws) :: more =>
      (.crlf, raws) :: mergeEnds more
  | q :: more => q :: mergeEnds more
  | [] => []

/- Merging keeps the characters. -/
theorem flatMap_mergeEnds
    (rest : List (Newline × List (List Char))) :
    ((mergeEnds rest).flatMap fun q =>
        q.1.raw ++ joinFields q.2) =
      rest.flatMap fun q => q.1.raw ++ joinFields q.2 := by
  fun_induction mergeEnds rest with
  | case1 raws more ih =>
      rw [List.flatMap_cons, List.flatMap_cons,
        List.flatMap_cons, ih]
      simp [Newline.raw, joinFields]
  | case2 q more _hOther ih =>
      rw [List.flatMap_cons, List.flatMap_cons, ih]
  | case3 => rfl

/- Merging adds no record. -/
theorem exists_mem_of_mem_mergeEnds
    {rest : List (Newline × List (List Char))}
    {q : Newline × List (List Char)}
    (hMem : q ∈ mergeEnds rest) :
    ∃ r ∈ rest, r.2 = q.2 := by
  fun_induction mergeEnds rest with
  | case1 raws more ih =>
      rcases List.mem_cons.mp hMem with rfl | hMore
      · exact ⟨(.lf, raws), by simp, rfl⟩
      · rcases ih hMore with ⟨r, hr, hEq⟩
        exact ⟨r, by simp [hr], hEq⟩
  | case2 p more _hOther ih =>
      rcases List.mem_cons.mp hMem with rfl | hMore
      · exact ⟨q, List.mem_cons_self, rfl⟩
      · rcases ih hMore with ⟨r, hr, hEq⟩
        exact ⟨r, List.mem_cons_of_mem p hr, hEq⟩
  | case3 => cases hMem

/- A line feed in front after merging was there before. -/
theorem head?_of_head?_mergeEnds
    {rest : List (Newline × List (List Char))}
    {q : Newline × List (List Char)}
    (hHead : (mergeEnds rest).head? = some q)
    (hLf : q.1 = .lf) :
    rest.head? = some q := by
  unfold mergeEnds at hHead
  split at hHead
  · cases hHead
    cases hLf
  · exact hHead
  · cases hHead

/- After merging all line ends are whole. -/
theorem isChain_mergeEnds
    (rest : List (Newline × List (List Char))) :
    (mergeEnds rest).IsChain fun q r =>
      ¬(q.1 = .cr ∧ q.2 = [[]] ∧ r.1 = .lf) := by
  fun_induction mergeEnds rest with
  | case1 raws more ih =>
      refine List.isChain_cons.mpr ⟨?_, ih⟩
      rintro r _hr ⟨hCr, _hRaws, _hLf⟩
      cases hCr
  | case2 q more hOther ih =>
      refine List.isChain_cons.mpr ⟨?_, ih⟩
      rintro r hr ⟨hCr, hRaws, hLf⟩
      -- Such a line feed was next to `q` before the merging,
      -- and the two would have been taken together.
      have hHead := head?_of_head?_mergeEnds hr hLf
      rcases List.head?_eq_some_iff.mp hHead with
        ⟨tail, hTail⟩
      exact
        hOther r.2 tail (Prod.ext hCr hRaws)
          (by rw [hTail, ← hLf])
  | case3 => exact List.isChain_nil

/- Pieces can always be taken with whole line ends. -/
theorem WellFormed.exists_unsplit
    {p : Pieces}
    (hPieces : p.WellFormed) :
    ∃ q : Pieces,
      q.WellFormed ∧ q.Unsplit ∧ q.join = p.join := by
  refine
    ⟨⟨p.first, mergeEnds p.rest⟩, ?_,
      isChain_mergeEnds p.rest, ?_⟩
  · intro raws hRaws
    rcases List.mem_cons.mp hRaws with rfl | hMore
    · exact hPieces p.first List.mem_cons_self
    · rcases List.mem_map.mp hMore with ⟨q, hq, rfl⟩
      rcases exists_mem_of_mem_mergeEnds hq with
        ⟨r, hr, hEq⟩
      rw [← hEq]
      exact
        hPieces r.2
          (List.mem_cons_of_mem _ (List.mem_map_of_mem hr))
  · unfold join
    rw [flatMap_mergeEnds]

end Pieces

/- A text can be cut if it is read to its end. -/
theorem ofText?_eq_some_iff
    {text : List Char}
    {c : Cut} :
    Cut.ofText? text = some c ↔ scan text = (c, []) := by
  unfold Cut.ofText?
  constructor
  · intro hCut
    split at hCut
    · next hAll =>
        cases hCut
        exact Prod.ext rfl hAll
    · cases hCut
  · intro hScan
    rw [hScan]
    rfl

/- A cut of a text is well formed and has all its characters. -/
theorem wellFormed_of_ofText?_eq_some
    {text : List Char}
    {c : Cut}
    (hCut : Cut.ofText? text = some c) :
    c.WellFormed ∧ c.raw = text := by
  rw [ofText?_eq_some_iff] at hCut
  have hWellFormed := wellFormed_scan text
  have hRaw := raw_scan text
  rw [hCut] at hWellFormed hRaw
  rw [List.append_nil] at hRaw
  exact ⟨hWellFormed, hRaw⟩

/- A text can be cut exactly when it is joined from pieces. -/
theorem exists_ofText?_iff
    {text : List Char} :
    (∃ c, Cut.ofText? text = some c) ↔
      ∃ p : Pieces, p.WellFormed ∧ p.join = text := by
  constructor
  · rintro ⟨c, hCut⟩
    rcases wellFormed_of_ofText?_eq_some hCut with
      ⟨hWellFormed, hRaw⟩
    exact ⟨c.pieces, hWellFormed.pieces, c.join_pieces.trans hRaw⟩
  · rintro ⟨p, hPieces, rfl⟩
    rcases hPieces.exists_unsplit with
      ⟨q, hWhole, hUnsplit, hJoin⟩
    rw [← hJoin]
    exact ⟨q.cut, ofText?_join hWhole hUnsplit⟩

/- A cut of a text is the one with whole line ends. -/
theorem isCutOf_of_ofText?_eq_some
    {text : List Char}
    {c : Cut}
    (hCut : Cut.ofText? text = some c) :
    c.pieces.IsCutOf text := by
  have hFound :
      ∀ p : Pieces,
        p.WellFormed → p.Unsplit → p.join = text →
          p = c.pieces := by
    rintro p hPieces hUnsplit rfl
    rw [ofText?_join hPieces hUnsplit] at hCut
    cases hCut
    exact hPieces.pieces_cut.symm
  rcases wellFormed_of_ofText?_eq_some hCut with
    ⟨hWellFormed, hRaw⟩
  have hJoin : c.pieces.join = text :=
    c.join_pieces.trans hRaw
  -- The merged pieces have the same text, so they are the ones
  -- that were found.
  rcases hWellFormed.pieces.exists_unsplit with
    ⟨q, hWhole, hUnsplit, hSame⟩
  rw [hFound q hWhole hUnsplit (hSame.trans hJoin)] at hUnsplit
  exact ⟨hWellFormed.pieces, hUnsplit, hJoin, hFound⟩

------------------------------------------------------------
-- Trees
------------------------------------------------------------

namespace Tree

/- The name of the expression that matched. -/
def part : Tree → Part
  | node part _ _ => part

/- What was matched. -/
def chars : Tree → List Char
  | node _ chars _ => chars

/- The matches inside. -/
def inner : Tree → List Tree
  | node _ _ inner => inner

/- The field nodes of each record node. -/
def fields
    (tree : Tree) : List (List Tree) :=
  (tree.inner.filter (·.part = .record)).map fun record =>
    record.inner.filter (·.part = .field)

/-
  The text of a field node: the body of a quoted match with its
  doubled quotes replaced, or any other match trimmed.
-/
def fieldText
    (tree : Tree) : List Char :=
  match tree.inner.head? with
  | none => []
  | some first =>
      if first.part = .quoted then
        first.inner.head?.elim [] fun body =>
          undouble body.chars
      else
        Text.trim first.chars

end Tree

/- The tree of a field holds its characters. -/
@[simp]
theorem RawField.chars_tree
    (f : RawField) :
    f.tree.chars = f.raw := by
  cases f with
  | quoted before body after => rfl
  | bare chars => rfl

/- The tree of a field holds its text. -/
@[simp]
theorem RawField.fieldText_tree
    (f : RawField) :
    f.tree.fieldText = f.text := by
  cases f with
  | quoted before body after =>
      exact undouble_encodeQuotes body
  | bare chars => rfl

/- The tree of a field is a field node. -/
@[simp]
theorem RawField.part_tree
    (f : RawField) :
    f.tree.part = .field := by
  cases f with
  | quoted before body after => rfl
  | bare chars => rfl

/- The tree of a cut holds the trees of all fields. -/
theorem Cut.fields_tree
    (c : Cut) :
    c.tree.fields =
      c.records.map fun r => r.fields.map RawField.tree := by
  have hRecords :
      c.tree.inner.filter (·.part = .record) =
        c.records.map Record.tree := by
    simp [Cut.tree, Tree.inner, Tree.part, Record.tree,
      List.filter_map, Function.comp_def]
  have hFields :
      ∀ r : Record,
        r.tree.inner.filter (·.part = .field) =
          r.fields.map RawField.tree := by
    intro r
    simp [Record.tree, Tree.inner, List.filter_map,
      Function.comp_def]
  unfold Tree.fields
  rw [hRecords, List.map_map]
  exact List.map_congr_left fun r _hr => hFields r

/- The texts of records do not depend on their places. -/
theorem map_texts_locateRecords
    (start : Nat)
    (records : List (Newline × Record)) :
    (locateRecords start records).map Row.texts =
      records.map fun p => p.2.fields.map RawField.text := by
  induction records generalizing start with
  | nil => rfl
  | cons p records ih =>
      rw [locateRecords, List.map_cons, ih,
        Record.texts_locate, List.map_cons]

/- The rows of a cut have the texts of its records. -/
theorem Cut.texts_rows
    (c : Cut) :
    (c.firstRow :: c.moreRows).map Row.texts =
      c.records.map fun r => r.fields.map RawField.text := by
  unfold Cut.firstRow Cut.moreRows Cut.records
  rw [List.map_cons, Record.texts_locate,
    map_texts_locateRecords, List.map_cons, List.map_map]
  rfl

------------------------------------------------------------
-- The Language
------------------------------------------------------------

/-
  The grammar accepts a text exactly when the text is joined
  from pieces, and then it reads the text as it is read from
  the front. The raw fields are the pieces, in the one way to
  take them with whole line ends, and nothing is lost. The text
  of a quoted field is its body with doubled quotes replaced;
  that of any other field is what was written, trimmed. These
  are the texts of the rows.
-/
theorem grammar_finds_the_unsplit_cut
    (text : List Char) :
    ((∃ tree, Grammar.Parses text tree) ↔
      ∃ p : Pieces, p.WellFormed ∧ p.join = text) ∧
    (∀ tree,
      Grammar.Parses text tree ↔
        ∃ c, scan text = (c, []) ∧ tree = c.tree) ∧
    ∀ c : Cut,
      scan text = (c, []) →
        c.pieces.IsCutOf text ∧
        c.tree.fields.map (·.map Tree.chars) =
          c.pieces.records ∧
        c.tree.fields.map (·.map Tree.fieldText) =
          (c.firstRow :: c.moreRows).map Row.texts ∧
        ∀ fields ∈ c.tree.fields, ∀ f ∈ fields,
          (∀ body,
            IsQuoted body f.chars →
              f.fieldText = undouble body) ∧
          (IsUnquoted f.chars →
            f.fieldText = Text.trim f.chars) := by
  simp only [← ofText?_eq_some_iff, Cut.texts_rows]
  refine ⟨?_, fun tree => Grammar.parses_iff, ?_⟩
  · rw [← exists_ofText?_iff]
    constructor
    · rintro ⟨tree, hParses⟩
      rcases Grammar.parses_iff.mp hParses with
        ⟨c, hCut, _hTree⟩
      exact ⟨c, hCut⟩
    · rintro ⟨c, hCut⟩
      exact ⟨c.tree, Grammar.parses_iff.mpr ⟨c, hCut, rfl⟩⟩
  · intro c hCut
    have hWellFormed := (wellFormed_of_ofText?_eq_some hCut).1
    rw [Cut.fields_tree, Cut.records_pieces]
    refine
      ⟨isCutOf_of_ofText?_eq_some hCut, ?_, ?_, ?_⟩
    · simp [Record.raws, Function.comp_def]
    · simp [Function.comp_def]
    · intro fields hFields node hNode
      rcases List.mem_map.mp hFields with ⟨r, hr, rfl⟩
      rcases List.mem_map.mp hNode with ⟨f, hf, rfl⟩
      rw [RawField.chars_tree, RawField.fieldText_tree]
      exact (hWellFormed r hr f hf).text_eq

/- A record of a bare and a quoted field, and what comes after it. -/
def twoRecords
    (ends : List (Newline × List (List Char))) : Pieces :=
  ⟨["x".toList, " \"a\"\"b\"\t".toList], ends⟩

/-
  A carriage return and a line feed could be two line ends, but
  they are found to be one.
-/
theorem twoRecords_found_unsplit :
    (twoRecords [(.cr, [[]]), (.lf, [[]])]).join =
        "x, \"a\"\"b\"\t\r\n".toList ∧
      (∃ tree,
        Grammar.Parses "x, \"a\"\"b\"\t\r\n".toList tree) ∧
      ∀ c,
        scan "x, \"a\"\"b\"\t\r\n".toList = (c, []) →
          c.pieces = twoRecords [(.crlf, [[]])] := by
  have hPieces : (twoRecords [(.crlf, [[]])]).WellFormed := by
    decide
  have hUnsplit : (twoRecords [(.crlf, [[]])]).Unsplit :=
    List.isChain_singleton _
  have hJoin :
      (twoRecords [(.crlf, [[]])]).join =
        "x, \"a\"\"b\"\t\r\n".toList := by
    decide
  rcases grammar_finds_the_unsplit_cut
    "x, \"a\"\"b\"\t\r\n".toList with
    ⟨hAccepted, _hTrees, hFound⟩
  refine ⟨by decide, hAccepted.mpr ⟨_, hPieces, hJoin⟩, ?_⟩
  intro c hCut
  rcases hFound c hCut with ⟨hOnly, _hFields⟩
  exact (hOnly.unique _ hPieces hUnsplit hJoin).symm

end MultiTape.Csv
