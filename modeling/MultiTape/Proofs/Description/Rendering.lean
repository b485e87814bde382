import MultiTape.Description.Parse
import MultiTape.Proofs.Csv.Writing
import MultiTape.Proofs.Description.Reading

/-
  This file defines the ways in which a description can be
  written down, and shows that each of them is read back as the
  description.

  Key definitions include:
    * `Description.WellFormed`
    * `Description.RendersRules`
    * `Description.Rendering`
    * `Description.Rendering.Renders`

  Main statements:
    * `Description.exists_renders`
    * `Description.parse_text_of_renders`
-/

namespace MultiTape

open MultiTape.Csv (RawField Record Newline Row Cut)

namespace Description

------------------------------------------------------------
-- Renderings
------------------------------------------------------------

/-
  A description that a text can give: the number of tapes is
  within its limits, no declared state is without a name, every
  rule has one entry for every tape, and rules are overwritten.
-/
structure WellFormed
    (d : Description) : Prop where
  tapes_pos : 1 ≤ d.tapes
  tapes_le : d.tapes ≤ maxTapes
  start : d.start ≠ ""
  states : "" ∉ d.states
  accept : "" ∉ d.accept
  rules : ∀ r ∈ d.rules, r.Fits d.tapes
  mode : d.mode = .overwrite

/- The texts of a list of states; no states are an empty text. -/
def nameTexts
    (states : List State) : List (List Char) :=
  if states = [] then
    [[]]
  else
    states.map String.toList

/- A record without any text. -/
def IsBlank
    (r : Record) : Prop :=
  ∀ f ∈ r.fields, f.Writes []

instance
    (r : Record) :
    Decidable (IsBlank r) :=
  inferInstanceAs (Decidable (∀ f ∈ r.fields, f.Writes []))

/-
  Rules are written one in a record, in their order. Blank
  records may stand before, between and after them.
-/
inductive RendersRules :
    List Rule → List Record → Prop where
  | nil :
      RendersRules [] []
  | blank
      {rules : List Rule}
      {record : Record}
      {records : List Record}
      (hBlank : IsBlank record)
      (hMore : RendersRules rules records) :
      RendersRules rules (record :: records)
  | rule
      {r : Rule}
      {rules : List Rule}
      {record : Record}
      {records : List Record}
      (hRule : record.Writes r.texts)
      (hMore : RendersRules rules records) :
      RendersRules (r :: rules) (record :: records)

/- A record without any text is a row without any. -/
theorem IsBlank.isEmpty_locate
    {record : Record}
    (hBlank : IsBlank record)
    (start : Nat) :
    (record.locate start).IsEmpty := by
  rw [Row.isEmpty_iff, Record.texts_locate]
  intro text hText
  rcases List.mem_map.mp hText with ⟨f, hf, rfl⟩
  exact (hBlank f hf).text_eq

/- The records of rules are well formed. -/
theorem RendersRules.wellFormed
    {rules : List Rule}
    {records : List Record}
    (hRenders : RendersRules rules records) :
    ∀ record ∈ records, record.WellFormed := by
  induction hRenders with
  | nil =>
      intro record hRecord
      cases hRecord
  | blank hBlank hMore ih =>
      intro record hRecord
      rcases List.mem_cons.mp hRecord with rfl | hRecord
      · intro f hf
        exact (hBlank f hf).wellFormed
      · exact ih record hRecord
  | rule hRule hMore ih =>
      intro record hRecord
      rcases List.mem_cons.mp hRecord with rfl | hRecord
      · exact hRule.wellFormed
      · exact ih record hRecord

/- The records of a description, with the line end between them. -/
structure Rendering where
  newline : Newline
  header : Record
  input : Record
  states : Record
  start : Record
  accept : Record
  more : List Record

namespace Rendering

/- The records after the first. -/
def rest
    (r : Rendering) : List Record :=
  r.input :: r.states :: r.start :: r.accept :: r.more

/- The records with the line ends between them. -/
def cut
    (r : Rendering) : Cut :=
  ⟨r.header, r.rest.map fun record => (r.newline, record)⟩

/- The characters of a rendering. -/
def text
    (r : Rendering) : List Char :=
  r.cut.raw

/- The records say what the description says. -/
structure Renders
    (r : Rendering)
    (d : Description) : Prop where
  header :
    r.header.Writes
      [d.name.toList, Nat.toDigits 10 d.tapes]
  input : r.input.Writes [d.input]
  states : r.states.Writes (nameTexts d.states)
  start : r.start.Writes [d.start.toList]
  accept : r.accept.Writes (nameTexts d.accept)
  more : RendersRules d.rules r.more

/- The records of a rendering are well formed. -/
theorem Renders.wellFormed_cut
    {r : Rendering}
    {d : Description}
    (hRenders : r.Renders d) :
    r.cut.WellFormed := by
  intro record hRecord
  simp only [Cut.records, cut, rest, List.map_map,
    Function.comp_def, List.map_id', List.mem_cons]
    at hRecord
  rcases hRecord with rfl | rfl | rfl | rfl | rfl | hMore
  · exact hRenders.header.wellFormed
  · exact hRenders.input.wellFormed
  · exact hRenders.states.wellFormed
  · exact hRenders.start.wellFormed
  · exact hRenders.accept.wellFormed
  · exact hRenders.more.wellFormed record hMore

/- A rendering is cut as it was put together. -/
theorem Renders.scan_text
    {r : Rendering}
    {d : Description}
    (hRenders : r.Renders d) :
    Csv.scan r.text = (r.cut, []) := by
  apply Csv.scan_raw hRenders.wellFormed_cut
  exact Csv.unsplit_map_mk r.newline r.rest

end Rendering

/- States have at least one text. -/
theorem nameTexts_ne_nil
    (states : List State) :
    nameTexts states ≠ [] := by
  unfold nameTexts
  split
  · simp
  · next hStates =>
      simpa using hStates

/- Rules can be written, one in a record. -/
theorem exists_rendersRules
    (rules : List Rule) :
    ∃ records, RendersRules rules records := by
  induction rules with
  | nil => exact ⟨[], .nil⟩
  | cons r rules ih =>
      rcases ih with ⟨records, hRecords⟩
      have hTexts : r.texts ≠ [] := by
        simp [Rule.texts]
      rcases Record.exists_writes hTexts with
        ⟨record, hRecord⟩
      exact ⟨record :: records, .rule hRecord hRecords⟩

/-
  Every description can be written, with line ends of every
  kind, whatever its names and symbols contain.
-/
theorem exists_renders
    (n : Newline)
    (d : Description) :
    ∃ r : Rendering, r.newline = n ∧ r.Renders d := by
  rcases Record.exists_writes
      (List.cons_ne_nil d.name.toList
        [Nat.toDigits 10 d.tapes]) with
    ⟨header, hHeader⟩
  rcases Record.exists_writes
      (List.cons_ne_nil d.input []) with
    ⟨input, hInput⟩
  rcases Record.exists_writes
      (nameTexts_ne_nil d.states) with
    ⟨states, hStates⟩
  rcases Record.exists_writes
      (List.cons_ne_nil d.start.toList []) with
    ⟨start, hStart⟩
  rcases Record.exists_writes
      (nameTexts_ne_nil d.accept) with
    ⟨accept, hAccept⟩
  rcases exists_rendersRules d.rules with ⟨more, hMore⟩
  exact
    ⟨⟨n, header, input, states, start, accept, more⟩, rfl,
      hHeader, hInput, hStates, hStart, hAccept, hMore⟩

------------------------------------------------------------
-- Reading Back
------------------------------------------------------------

/- The names of a row that was written for states are these. -/
theorem names_of_texts_eq
    {row : Row}
    {states : List State}
    (hStates : "" ∉ states)
    (hTexts : row.texts = nameTexts states) :
    row.names = states := by
  have hNames :
      row.names =
        ((nameTexts states).filter (· ≠ [])).map
          String.ofList := by
    rw [← hTexts]
    rfl
  rw [hNames]
  unfold nameTexts
  split
  · next hNone =>
      rw [hNone]
      rfl
  · have hAll :
        (states.map String.toList).filter (· ≠ []) =
          states.map String.toList := by
      rw [List.filter_eq_self]
      intro text hText
      rcases List.mem_map.mp hText with ⟨s, hs, rfl⟩
      apply decide_eq_true
      intro hNil
      apply hStates
      rw [← String.toList_eq_nil_iff.mp hNil]
      exact hs
    have hBack :
        String.ofList ∘ String.toList = id := by
      funext s
      exact String.ofList_toList
    rw [hAll, List.map_map, hBack, List.map_id]

/- A rule of a machine with tapes is not blank. -/
theorem not_isEmpty_of_texts_eq
    {tapes : Nat}
    {row : Row}
    {r : Rule}
    (hPos : 1 ≤ tapes)
    (hFits : r.Fits tapes)
    (hTexts : row.texts = r.texts) :
    ¬ row.IsEmpty := by
  rw [Row.isEmpty_iff, hTexts]
  intro hEmpty
  cases hRead : r.read with
  | nil =>
      have hNone : tapes = 0 := by
        rw [← hFits.read, hRead]
        rfl
      omega
  | cons c read =>
      have hSymbol : [c] ∈ r.texts := by
        simp [Rule.texts, symbolTexts, hRead]
      cases hEmpty [c] hSymbol

/- The rules are read back from the records written for them. -/
theorem RendersRules.mapM_readRule
    {tapes : Nat}
    {rules : List Rule}
    {records : List Record}
    (hRenders : RendersRules rules records)
    (hPos : 1 ≤ tapes)
    (hFits : ∀ r ∈ rules, r.Fits tapes)
    (n : Newline)
    (start : Nat) :
    (ruleRows
        (Csv.locateRecords start
          (records.map fun record => (n, record)))).mapM
        (readRule tapes) =
      .ok rules := by
  induction hRenders generalizing start with
  | nil => rfl
  | blank hBlank hMore ih =>
      have hRows := ih hFits
      rw [List.map_cons, Csv.locateRecords,
        ruleRows_cons_of_isEmpty (hBlank.isEmpty_locate _)]
      exact hRows _
  | @rule r rules record records hRule hMore ih =>
      have hRuleFits : r.Fits tapes := by
        exact hFits r List.mem_cons_self
      have hRows := ih fun q hq =>
        hFits q (List.mem_cons_of_mem r hq)
      have hTexts :
          (record.locate (start + n.raw.length)).texts =
            r.texts := by
        exact hRule.texts_locate _
      have hRead :
          readRule tapes
              (record.locate (start + n.raw.length)) =
            .ok r := by
        exact readRule_eq_ok_iff.mpr ⟨hTexts, hRuleFits⟩
      have hRow :=
        not_isEmpty_of_texts_eq hPos hRuleFits hTexts
      rw [List.map_cons, Csv.locateRecords,
        ruleRows_cons_of_not_isEmpty hRow, mapM_eq_ok_iff]
      exact .cons hRead (mapM_eq_ok_iff.mp (hRows _))

/- Every rendering of a description is read back as it. -/
theorem parse_text_of_renders
    {d : Description}
    {r : Rendering}
    (hDescription : d.WellFormed)
    (hRenders : r.Renders d) :
    parse r.text = .ok d := by
  have hScan := hRenders.scan_text
  have hCount : d.tapes < Text.countBound := by
    have hLimit : maxTapes < Text.countBound := by
      decide
    exact Nat.lt_of_le_of_lt hDescription.tapes_le hLimit
  have hRows : ofRows r.cut.firstRow r.cut.moreRows = .ok d := by
    rw [ofRows_eq_ok_iff]
    refine ⟨_, _, _, _, _, rfl, ?_, ?_, ?_, ?_, ?_, ?_, ?_,
      hDescription.mode⟩
    · rw [readHeader_eq_ok_iff]
      exact ⟨_, _, [], hRenders.header.texts_locate 0,
        Text.count?_toDigits hCount,
        hDescription.tapes_pos, hDescription.tapes_le⟩
    · rw [readStart_eq_ok_iff]
      exact ⟨hDescription.start,
        hRenders.start.text_first_locate _⟩
    · exact hRenders.more.mapM_readRule
        hDescription.tapes_pos hDescription.rules _ _
    · exact hRenders.header.text_first_locate 0
    · exact hRenders.input.text_first_locate _
    · exact names_of_texts_eq hDescription.states
        (hRenders.states.texts_locate _)
    · exact names_of_texts_eq hDescription.accept
        (hRenders.accept.texts_locate _)
  unfold parse read
  rw [hScan]
  simp only [if_true, hRows]
  rfl

/-
  A machine of which the names and symbols contain everything
  that has a meaning in comma separated text.
-/
def tangled : Description :=
  { name := "a \"b\",\r\nc"
    tapes := 2
    input := [' ', ',', '\n']
    states := ["q", " r\t"]
    start := "q"
    accept := []
    mode := .overwrite
    rules :=
      [{ state := "q"
         read := ['\r', '"']
         nextState := " r\t"
         write := ['\n', '*']
         moves := [.right, .stay] }] }

/-
  It is written with quotes only where they are needed, with
  white space around some fields and with blank records.
-/
def tangledRendering : Rendering :=
  { newline := .cr
    header :=
      ⟨.quoted [' '] "a \"b\",\r\nc".toList ['\t'],
        [.bare ['\t', '2', ' ']]⟩
    input := ⟨.quoted [] [' ', ',', '\n'] [], []⟩
    states :=
      ⟨.bare ['q'], [.quoted [] [' ', 'r', '\t'] [' ']]⟩
    start := ⟨.bare [' ', 'q'], []⟩
    accept := ⟨.bare [], []⟩
    more :=
      [⟨.bare [' '], [.quoted [] [] []]⟩,
        ⟨.bare ['q'],
          [.quoted [] ['\r'] [], .quoted [] ['"'] [],
            .quoted [] [' ', 'r', '\t'] [],
            .quoted [] ['\n'] [], .bare ['*'],
            .bare [' ', 'R'], .bare ['S', ' ']]⟩,
        ⟨.bare [], []⟩] }

theorem wellFormed_tangled :
    tangled.WellFormed := by
  refine ⟨?_, ?_, ?_, ?_, ?_, ?_, rfl⟩
  · decide
  · decide
  · decide
  · decide
  · decide
  · intro r hr
    cases List.mem_singleton.mp hr
    exact ⟨rfl, rfl, rfl⟩

theorem renders_tangled :
    tangledRendering.Renders tangled := by
  constructor
  · decide
  · decide
  · decide
  · decide
  · decide
  · refine .blank ?_ (.rule ?_ (.blank ?_ .nil))
    · decide
    · decide
    · decide

theorem parse_text_tangled :
    tangled.WellFormed ∧
      tangledRendering.Renders tangled ∧
        parse tangledRendering.text = .ok tangled :=
  ⟨wellFormed_tangled, renders_tangled,
    parse_text_of_renders wellFormed_tangled
      renders_tangled⟩

end Description

end MultiTape
