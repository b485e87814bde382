import MultiTape.Csv.Scan

/-
  This file shows that reading comma separated text loses
  nothing and yields well formed parts: what was read, followed
  by what was not, is the text.

  Main statements:
    * `raw_scan`
    * `wellFormed_scan`
-/

namespace MultiTape.Csv

------------------------------------------------------------
-- Fields
------------------------------------------------------------

/- A body with its closing quote is where it was read from. -/
theorem raw_scanBody
    {cs body rest : List Char}
    (h : scanBody cs = some (body, rest)) :
    encodeQuotes body ++ '"' :: rest = cs := by
  fun_induction scanBody cs generalizing body with
  | case1 => simp at h
  | case2 cs ih =>
      obtain ⟨⟨inner, after⟩, hInner, hEq⟩ := Option.map_eq_some_iff.mp h
      cases hEq
      simp [encodeQuotes, ih hInner]
  | case3 cs =>
      cases h
      rfl
  | case4 c cs _ hc ih =>
      obtain ⟨⟨inner, after⟩, hInner, hEq⟩ := Option.map_eq_some_iff.mp h
      cases hEq
      have hNe : c ≠ '"' := by
        rintro rfl
        exact hc rfl
      simp [encodeQuotes, hNe, ih hInner]

private theorem raw_scanQuoted
    {cs rest : List Char}
    {f : RawField}
    (h : scanQuoted cs = some (f, rest)) :
    f.raw ++ rest = cs := by
  unfold scanQuoted at h
  split at h
  · next after hEq =>
      obtain ⟨⟨body, left⟩, hBody, hPair⟩ := Option.map_eq_some_iff.mp h
      cases hPair
      have hRaw := raw_scanBody hBody
      have hPadding : left.takeWhile isPadding ++ left.dropWhile isPadding = left :=
        List.takeWhile_append_dropWhile
      have hFront : cs.takeWhile isPadding ++ cs.dropWhile isPadding = cs :=
        List.takeWhile_append_dropWhile
      rw [hEq, ← hRaw, ← hPadding] at hFront
      simpa [RawField.raw] using hFront
  · simp at h

/- A field, followed by what it left, is where it was read from. -/
theorem raw_scanField
    (cs : List Char) :
    (scanField cs).1.raw ++ (scanField cs).2 = cs := by
  unfold scanField
  cases h : scanQuoted cs with
  | none => exact List.takeWhile_append_dropWhile
  | some r => exact raw_scanQuoted h

private theorem all_takeWhile
    {p : Char → Bool}
    {cs : List Char} :
    ∀ c ∈ cs.takeWhile p, p c = true := by
  induction cs with
  | nil => simp
  | cons d cs ih =>
      rw [List.takeWhile_cons]
      split
      · next hd =>
          intro c hc
          rcases List.mem_cons.mp hc with rfl | hc
          · exact hd
          · exact ih c hc
      · simp

private theorem wellFormed_scanQuoted
    {cs rest : List Char}
    {f : RawField}
    (h : scanQuoted cs = some (f, rest)) :
    f.WellFormed := by
  unfold scanQuoted at h
  split at h
  · obtain ⟨⟨body, left⟩, -, hPair⟩ := Option.map_eq_some_iff.mp h
    cases hPair
    exact ⟨all_takeWhile, all_takeWhile⟩
  · simp at h

/- A field that was read is well formed. -/
theorem wellFormed_scanField
    (cs : List Char) :
    (scanField cs).1.WellFormed := by
  unfold scanField
  cases h : scanQuoted cs with
  | none => exact all_takeWhile
  | some r => exact wellFormed_scanQuoted h

------------------------------------------------------------
-- Records
------------------------------------------------------------

private theorem raw_scanFields
    (cs : List Char) :
    (scanFields cs).1.flatMap (fun f => ',' :: f.raw) ++ (scanFields cs).2 = cs := by
  fun_induction scanFields cs with
  | case1 rest field more ih =>
      have hField := raw_scanField rest
      simp only [List.flatMap_cons, List.cons_append, List.append_assoc]
      rw [ih]
      exact congrArg (',' :: ·) hField
  | case2 => rfl

/- A record, followed by what it left, is where it was read from. -/
theorem raw_scanRecord
    (cs : List Char) :
    (scanRecord cs).1.raw ++ (scanRecord cs).2 = cs := by
  have hFields := raw_scanFields (scanField cs).2
  have hField := raw_scanField cs
  unfold scanRecord Record.raw
  rw [List.append_assoc, hFields, hField]

private theorem wellFormed_scanFields
    (cs : List Char) :
    ∀ f ∈ (scanFields cs).1, f.WellFormed := by
  fun_induction scanFields cs with
  | case1 rest field more ih =>
      intro f hf
      rcases List.mem_cons.mp hf with rfl | hf
      · exact wellFormed_scanField rest
      · exact ih f hf
  | case2 => simp

/- A record that was read is well formed. -/
theorem wellFormed_scanRecord
    (cs : List Char) :
    (scanRecord cs).1.WellFormed := by
  intro f hf
  rcases List.mem_cons.mp hf with rfl | hf
  · exact wellFormed_scanField cs
  · exact wellFormed_scanFields _ f hf

------------------------------------------------------------
-- Cuts
------------------------------------------------------------

private theorem raw_scanNewline
    {cs rest : List Char}
    {n : Newline}
    (h : scanNewline cs = some (n, rest)) :
    n.raw ++ rest = cs := by
  unfold scanNewline at h
  split at h <;> cases h <;> rfl

private theorem raw_scanRecords
    (cs : List Char) :
    (scanRecords cs).1.flatMap (fun p => p.1.raw ++ p.2.raw) ++ (scanRecords cs).2 = cs := by
  fun_induction scanRecords cs with
  | case1 cs newline rest hNewline record more ih =>
      have hRecord := raw_scanRecord rest
      simp only [List.flatMap_cons, List.append_assoc]
      rw [ih, hRecord]
      exact raw_scanNewline hNewline
  | case2 => rfl

/- What was read, followed by what was not, is the text. -/
theorem raw_scan
    (cs : List Char) :
    (scan cs).1.raw ++ (scan cs).2 = cs := by
  have hRecords := raw_scanRecords (scanRecord cs).2
  have hRecord := raw_scanRecord cs
  unfold scan Cut.raw
  rw [List.append_assoc, hRecords, hRecord]

private theorem wellFormed_scanRecords
    (cs : List Char) :
    ∀ p ∈ (scanRecords cs).1, p.2.WellFormed := by
  fun_induction scanRecords cs with
  | case1 cs newline rest hNewline record more ih =>
      intro p hp
      rcases List.mem_cons.mp hp with rfl | hp
      · exact wellFormed_scanRecord rest
      · exact ih p hp
  | case2 => simp

/- The records that were read are well formed. -/
theorem wellFormed_scan
    (cs : List Char) :
    (scan cs).1.WellFormed := by
  intro r hr
  rcases List.mem_cons.mp hr with rfl | hr
  · exact wellFormed_scanRecord cs
  · obtain ⟨p, hp, rfl⟩ := List.mem_map.mp hr
    exact wellFormed_scanRecords _ p hp

end MultiTape.Csv
