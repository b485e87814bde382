import MultiTape.Proofs.Json.Scalars

/-
  This file shows that a JSON value is read from the text that
  is written of it, and that the text is a single line.

  Key definitions include:
    * `Json.IsReadable`
    * `Json.ReadsBack`
    * `Json.IsLineOf`

  Main statements:
    * `Json.IsReadable.readsBack`
    * `Json.IsReadable.parse?_render`
    * `Json.IsReadable.isPlain_render`
    * `Json.IsReadable.isLineOf_render`
-/

namespace MultiTape

namespace Json

------------------------------------------------------------
-- Values
------------------------------------------------------------

/-
  A value of which all decimals are such as can be read. The
  other numbers, and all texts, can be read anyway.
-/
inductive IsReadable : Json → Prop where
  | null :
      IsReadable null
  | bool (b : Bool) :
      IsReadable (bool b)
  | integer (n : Int) :
      IsReadable (integer n)
  | decimal
      {digits : String}
      (hDigits :
        readNumber digits.toList = some (decimal digits, [])) :
      IsReadable (decimal digits)
  | string (s : String) :
      IsReadable (string s)
  | array
      {items : List Json}
      (hItems : ∀ j ∈ items, IsReadable j) :
      IsReadable (array items)
  | object
      {fields : List (String × Json)}
      (hFields : ∀ f ∈ fields, IsReadable f.2) :
      IsReadable (object fields)

/- A list of values is readable if they are. -/
@[simp]
theorem isReadable_array_iff
    {items : List Json} :
    (array items).IsReadable ↔ ∀ j ∈ items, j.IsReadable :=
  ⟨fun | .array hItems => hItems, .array⟩

/- An object is readable if the values of its fields are. -/
@[simp]
theorem isReadable_object_iff
    {fields : List (String × Json)} :
    (object fields).IsReadable ↔
      ∀ f ∈ fields, f.2.IsReadable :=
  ⟨fun | .object hFields => hFields, .object⟩

attribute [simp] IsReadable.string IsReadable.integer IsReadable.bool

@[simp]
theorem isReadable_nat
    (n : Nat) :
    (nat n).IsReadable :=
  .integer n

/- A list of characters is readable. -/
@[simp]
theorem isReadable_chars
    (cs : List Char) :
    (chars cs).IsReadable := by
  simp [chars]

/-
  A character that a value may begin with. It is neither space
  nor the bracket that closes an array without items.
-/
structure Opens
    (c : Char) : Prop where
  lt_toNat : 32 < c.toNat
  ne_bracket : c ≠ ']'

/- A number begins as no text, list, object or word does. -/
theorem opens_of_isNumeric
    {c : Char}
    (hNumeric : isNumeric c = true) :
    Opens c ∧
      c ≠ '"' ∧ c ≠ '[' ∧ c ≠ '\x7b' ∧
        c ≠ 'n' ∧ c ≠ 't' ∧ c ≠ 'f' := by
  have hAll :
      "0123456789-+.eE".toList.all (fun d =>
        decide
          ((32 < d.toNat ∧ d ≠ ']') ∧
            d ≠ '"' ∧ d ≠ '[' ∧ d ≠ '\x7b' ∧
              d ≠ 'n' ∧ d ≠ 't' ∧ d ≠ 'f')) = true := by
    decide
  rcases of_decide_eq_true
      (List.all_eq_true.mp hAll c
        (mem_of_isNumeric hNumeric)) with
    ⟨⟨hLow, hBracket⟩, hOther⟩
  exact ⟨⟨hLow, hBracket⟩, hOther⟩

/- There is nothing to leave out in front of other characters. -/
theorem skipSpace_cons
    {c : Char}
    (hLow : 32 < c.toNat)
    (cs : List Char) :
    skipSpace (c :: cs) = c :: cs := by
  have hNe : ∀ d : Char, d.toNat ≤ 32 → c ≠ d := by
    rintro d hSpace rfl
    omega
  have hBlank := hNe ' ' (by decide)
  have hTab := hNe '\t' (by decide)
  have hFeed := hNe '\n' (by decide)
  have hReturn := hNe '\r' (by decide)
  unfold skipSpace
  rw [List.dropWhile_cons_of_neg]
  simp [hBlank, hTab, hFeed, hReturn]

/- A number is read where one begins. -/
theorem readValue_of_isNumeric
    {c : Char}
    (hNumeric : isNumeric c = true)
    (fuel : Nat)
    (cs : List Char) :
    readValue (fuel + 1) (c :: cs) = readNumber (c :: cs) := by
  rcases opens_of_isNumeric hNumeric with
    ⟨hOpens, hQuote, hBracket, hBrace, hN, hT, hF⟩
  unfold readValue
  rw [skipSpace_cons hOpens.lt_toNat]
  split
  · next hEq => exact absurd (List.cons.inj hEq).1 hQuote
  · next hEq => exact absurd (List.cons.inj hEq).1 hBracket
  · next hEq => exact absurd (List.cons.inj hEq).1 hBrace
  · next hEq => exact absurd (List.cons.inj hEq).1 hN
  · next hEq => exact absurd (List.cons.inj hEq).1 hT
  · next hEq => exact absurd (List.cons.inj hEq).1 hF
  · rfl

/-
  The value is read from what is written of it, whatever comes
  after it, if that cannot belong to a number. Two calls for
  each character are enough.
-/
def ReadsBack
    (j : Json) : Prop :=
  ∀ fuel rest,
    2 * j.render.toList.length ≤ fuel →
      EndsNumber rest →
        readValue fuel (j.render.toList ++ rest) =
          some (j, rest)

/- A number is read, if what is written of it is. -/
theorem readsBack_of_readNumber
    {j : Json}
    (hRead : readNumber j.render.toList = some (j, [])) :
    ReadsBack j := by
  intro fuel rest hFuel hEnds
  rcases exists_eq_cons_of_readNumber hRead with
    ⟨c, cs, hText, hNumeric⟩
  rw [hText, List.length_cons] at hFuel
  cases fuel with
  | zero => omega
  | succ fuel =>
      rw [hText, List.cons_append,
        readValue_of_isNumeric hNumeric, ← List.cons_append,
        ← hText]
      exact readNumber_append hRead hEnds

/- A text is read. -/
theorem readsBack_string
    (s : String) :
    ReadsBack (string s) := by
  intro fuel rest hFuel _hEnds
  have hText : (string s).render.toList = (quote s).toList := by
    rw [render]
  rw [hText, toList_quote] at hFuel ⊢
  rw [List.cons_append, List.length_cons] at hFuel
  cases fuel with
  | zero => omega
  | succ fuel =>
      rw [List.cons_append, List.cons_append,
        List.append_assoc]
      unfold readValue
      rw [skipSpace_cons (by decide)]
      simp [readString_escape]

/- What is written of a value begins as a value does. -/
theorem IsReadable.exists_toList_render
    {j : Json}
    (hReadable : j.IsReadable) :
    ∃ c cs, j.render.toList = c :: cs ∧ Opens c := by
  cases hReadable with
  | null => exact ⟨'n', _, rfl, by decide, by decide⟩
  | bool b =>
      cases b with
      | false => exact ⟨'f', _, rfl, by decide, by decide⟩
      | true => exact ⟨'t', _, rfl, by decide, by decide⟩
  | integer n =>
      rw [render]
      rcases exists_eq_cons_of_readNumber
          (readNumber_toString n) with
        ⟨c, cs, hText, hNumeric⟩
      exact ⟨c, cs, hText, (opens_of_isNumeric hNumeric).1⟩
  | decimal hDigits =>
      rw [render]
      rcases exists_eq_cons_of_readNumber hDigits with
        ⟨c, cs, hText, hNumeric⟩
      exact ⟨c, cs, hText, (opens_of_isNumeric hNumeric).1⟩
  | string s =>
      rw [render, toList_quote]
      exact ⟨'"', _, rfl, by decide, by decide⟩
  | array hItems =>
      rw [render, String.toList_append, String.toList_append]
      exact ⟨'[', _, rfl, by decide, by decide⟩
  | object hFields =>
      rw [render, String.toList_append, String.toList_append]
      exact ⟨'\x7b', _, rfl, by decide, by decide⟩

/- A comma stands between two of several texts. -/
theorem toList_intercalate_cons_cons
    (text next : String)
    (more : List String) :
    (",".intercalate (text :: next :: more)).toList =
      text.toList ++
        ',' :: (",".intercalate (next :: more)).toList := by
  rw [String.intercalate_cons_cons]
  simp

/- The first of several texts stands in front. -/
theorem exists_toList_intercalate_cons
    (text : String)
    (more : List String) :
    ∃ tail,
      (",".intercalate (text :: more)).toList =
        text.toList ++ tail := by
  cases more with
  | nil => exact ⟨[], by simp⟩
  | cons next more =>
      exact ⟨_, toList_intercalate_cons_cons text next more⟩

section Items

variable {j : Json}
variable {fuel : Nat}

/- An item is read with those after its comma. -/
theorem readItems_comma
    (hItem : ReadsBack j)
    (hFuel : 2 * j.render.toList.length ≤ fuel)
    (rest : List Char) :
    readItems (fuel + 1) (j.render.toList ++ ',' :: rest) =
      (readItems fuel rest).map fun p => (j :: p.1, p.2) := by
  rw [readItems, hItem fuel _ hFuel (endsNumber_cons rfl _)]
  simp only
  rw [skipSpace_cons (by decide)]
  rfl

/- The last item is read with the bracket after it. -/
theorem readItems_bracket
    (hItem : ReadsBack j)
    (hFuel : 2 * j.render.toList.length ≤ fuel)
    (rest : List Char) :
    readItems (fuel + 1) (j.render.toList ++ ']' :: rest) =
      some ([j], rest) := by
  rw [readItems, hItem fuel _ hFuel (endsNumber_cons rfl _)]
  simp only
  rw [skipSpace_cons (by decide)]
  rfl

end Items

/- The items of an array are read, up to its closing bracket. -/
theorem readItems_renderItems
    {items : List Json}
    (hSome : items ≠ [])
    (hItems : ∀ j ∈ items, ReadsBack j)
    {fuel : Nat}
    (hFuel :
      2 * ((",".intercalate (renderItems items)).toList.length +
        1) ≤ fuel)
    (rest : List Char) :
    readItems fuel
        ((",".intercalate (renderItems items)).toList ++
          ']' :: rest) =
      some (items, rest) := by
  induction items generalizing fuel with
  | nil => exact absurd rfl hSome
  | cons item items ih =>
      have hItem := hItems item List.mem_cons_self
      cases fuel with
      | zero => omega
      | succ fuel =>
          cases items with
          | nil =>
              simp only [renderItems,
                String.intercalate_singleton] at hFuel ⊢
              exact readItems_bracket hItem (by omega) rest
          | cons next more =>
              have hText :
                  (",".intercalate
                      (renderItems (item :: next :: more))).toList =
                    item.render.toList ++
                      ',' ::
                        (",".intercalate
                          (renderItems (next :: more))).toList := by
                simp only [renderItems]
                exact toList_intercalate_cons_cons _ _ _
              have hOthers : ∀ j ∈ next :: more, ReadsBack j :=
                fun j hMem =>
                  hItems j (List.mem_cons_of_mem item hMem)
              rw [hText, List.length_append,
                List.length_cons] at hFuel
              -- One call is for the list and the others for the item.
              rw [hText, List.append_assoc, List.cons_append,
                readItems_comma hItem (by omega),
                ih (List.cons_ne_nil next more) hOthers
                  (by omega)]
              rfl

section Fields

variable {name : String}
variable {value : Json}
variable {fuel : Nat}

/- What is written of a field begins with its name. -/
theorem toList_field
    (name : String)
    (value : Json)
    (rest : List Char) :
    (quote name ++ ":" ++ value.render).toList ++ rest =
      '"' ::
        (name.toList.flatMap (fun c => (escape c).toList) ++
          '"' :: ':' :: (value.render.toList ++ rest)) := by
  rw [String.toList_append, String.toList_append,
    toList_quote]
  simp

/- A field is read with those after its comma. -/
theorem readFields_comma
    (hValue : ReadsBack value)
    (hFuel : 2 * value.render.toList.length ≤ fuel)
    (rest : List Char) :
    readFields (fuel + 1)
        ((quote name ++ ":" ++ value.render).toList ++
          ',' :: rest) =
      (readFields fuel rest).map fun p =>
        ((name, value) :: p.1, p.2) := by
  rw [toList_field, readFields, skipSpace_cons (by decide)]
  simp only [readString_escape]
  rw [skipSpace_cons (by decide)]
  simp only
  rw [hValue fuel _ hFuel (endsNumber_cons rfl _)]
  simp only
  rw [skipSpace_cons (by decide)]
  rfl

/- The last field is read with the brace after it. -/
theorem readFields_brace
    (hValue : ReadsBack value)
    (hFuel : 2 * value.render.toList.length ≤ fuel)
    (rest : List Char) :
    readFields (fuel + 1)
        ((quote name ++ ":" ++ value.render).toList ++
          '\x7d' :: rest) =
      some ([(name, value)], rest) := by
  rw [toList_field, readFields, skipSpace_cons (by decide)]
  simp only [readString_escape]
  rw [skipSpace_cons (by decide)]
  simp only
  rw [hValue fuel _ hFuel (endsNumber_cons rfl _)]
  simp only
  rw [skipSpace_cons (by decide)]
  rfl

end Fields

/- The fields of an object are read, up to its closing brace. -/
theorem readFields_renderFields
    {fields : List (String × Json)}
    (hSome : fields ≠ [])
    (hFields : ∀ f ∈ fields, ReadsBack f.2)
    {fuel : Nat}
    (hFuel :
      2 * ((",".intercalate (renderFields fields)).toList.length +
        1) ≤ fuel)
    (rest : List Char) :
    readFields fuel
        ((",".intercalate (renderFields fields)).toList ++
          '\x7d' :: rest) =
      some (fields, rest) := by
  induction fields generalizing fuel with
  | nil => exact absurd rfl hSome
  | cons field fields ih =>
      rcases field with ⟨name, value⟩
      have hValue : ReadsBack value :=
        hFields _ List.mem_cons_self
      have hLength :
          value.render.toList.length ≤
            (quote name ++ ":" ++
              value.render).toList.length := by
        rw [String.toList_append, List.length_append]
        omega
      cases fuel with
      | zero => omega
      | succ fuel =>
          cases fields with
          | nil =>
              simp only [renderFields,
                String.intercalate_singleton] at hFuel ⊢
              exact readFields_brace hValue (by omega) rest
          | cons next more =>
              have hText :
                  (",".intercalate
                      (renderFields
                        ((name, value) :: next :: more))).toList =
                    (quote name ++ ":" ++ value.render).toList ++
                      ',' ::
                        (",".intercalate
                          (renderFields (next :: more))).toList := by
                rcases next with ⟨name', value'⟩
                simp only [renderFields]
                exact toList_intercalate_cons_cons _ _ _
              have hOthers :
                  ∀ f ∈ next :: more, ReadsBack f.2 :=
                fun f hMem =>
                  hFields f (List.mem_cons_of_mem _ hMem)
              rw [hText, List.length_append,
                List.length_cons] at hFuel
              rw [hText, List.append_assoc, List.cons_append,
                readFields_comma hValue (by omega),
                ih (List.cons_ne_nil next more) hOthers
                  (by omega)]
              rfl

/- An array is read if its items are. -/
theorem readsBack_array
    {items : List Json}
    (hReadable : ∀ j ∈ items, j.IsReadable)
    (hItems : ∀ j ∈ items, ReadsBack j) :
    ReadsBack (array items) := by
  intro fuel rest hFuel _hEnds
  have hText :
      (array items).render.toList =
        '[' ::
          ((",".intercalate (renderItems items)).toList ++
            [']']) := by
    rw [render]
    simp
  rw [hText, List.length_cons, List.length_append,
    List.length_singleton] at hFuel
  cases fuel with
  | zero => omega
  | succ fuel =>
      rw [hText, List.cons_append, List.append_assoc, readValue,
        skipSpace_cons (by decide)]
      cases items with
      | nil => rfl
      | cons item items =>
          have hLess :
              2 * ((",".intercalate
                (renderItems (item :: items))).toList.length +
                  1) ≤ fuel := by
            omega
          have hRead :=
            readItems_renderItems (List.cons_ne_nil item items)
              hItems hLess rest
          rcases (hReadable item
              List.mem_cons_self).exists_toList_render with
            ⟨c, cs, hItem, hOpens⟩
          rcases exists_toList_intercalate_cons item.render
              (renderItems items) with
            ⟨tail, hTail⟩
          rw [hItem, List.cons_append] at hTail
          simp only [renderItems] at hRead ⊢
          rw [hTail, List.cons_append] at hRead ⊢
          rw [skipSpace_cons hOpens.lt_toNat]
          -- The array is not taken for one without items.
          split
          · next hEq =>
              exact absurd (List.cons.inj hEq).1 hOpens.ne_bracket
          · rw [List.singleton_append, hRead]
            rfl

/- An object is read if the values of its fields are. -/
theorem readsBack_object
    {fields : List (String × Json)}
    (hFields : ∀ f ∈ fields, ReadsBack f.2) :
    ReadsBack (object fields) := by
  intro fuel rest hFuel _hEnds
  have hText :
      (object fields).render.toList =
        '\x7b' ::
          ((",".intercalate (renderFields fields)).toList ++
            ['\x7d']) := by
    rw [render]
    simp
  rw [hText, List.length_cons, List.length_append,
    List.length_singleton] at hFuel
  cases fuel with
  | zero => omega
  | succ fuel =>
      rw [hText, List.cons_append, List.append_assoc, readValue,
        skipSpace_cons (by decide)]
      cases fields with
      | nil => rfl
      | cons field fields =>
          have hLess :
              2 * ((",".intercalate
                (renderFields (field :: fields))).toList.length +
                  1) ≤ fuel := by
            omega
          have hRead :=
            readFields_renderFields
              (List.cons_ne_nil field fields) hFields hLess rest
          rcases field with ⟨name, value⟩
          rcases exists_toList_intercalate_cons
              (quote name ++ ":" ++ value.render)
              (renderFields fields) with
            ⟨tail, hTail⟩
          rw [toList_field] at hTail
          simp only [renderFields] at hRead ⊢
          rw [hTail, List.cons_append] at hRead ⊢
          rw [skipSpace_cons (by decide), List.singleton_append,
            hRead]
          rfl

/-
  A value is read from what is written of it. The induction is
  on the value; an array or an object is read if its parts are.
-/
theorem IsReadable.readsBack
    {j : Json}
    (hReadable : j.IsReadable) :
    ReadsBack j := by
  induction hReadable with
  | null =>
      intro fuel rest hFuel _hEnds
      cases fuel with
      | zero => cases hFuel
      | succ fuel => rfl
  | bool b =>
      intro fuel rest hFuel _hEnds
      cases fuel with
      | zero => cases b <;> cases hFuel
      | succ fuel => cases b <;> rfl
  | integer n =>
      apply readsBack_of_readNumber
      rw [render]
      exact readNumber_toString n
  | decimal hDigits =>
      apply readsBack_of_readNumber
      rw [render]
      exact hDigits
  | string s => exact readsBack_string s
  | array hItems ih => exact readsBack_array hItems ih
  | object _hFields ih => exact readsBack_object ih

/- So the value is what the text gives. -/
theorem IsReadable.parse?_render
    {j : Json}
    (hReadable : j.IsReadable) :
    parse? j.render = some j := by
  have hEnds : EndsNumber [] := by
    intro c hHead
    cases hHead
  have hRead :=
    hReadable.readsBack (2 * j.render.toList.length + 2) []
      (by omega) hEnds
  rw [List.append_nil] at hRead
  unfold parse?
  simp only [hRead]
  rfl

------------------------------------------------------------
-- Lines
------------------------------------------------------------

/- Plain texts are plain with commas between them. -/
theorem isPlain_intercalate
    {texts : List String}
    (hTexts : ∀ text ∈ texts, IsPlain text) :
    IsPlain (",".intercalate texts) := by
  induction texts with
  | nil => decide
  | cons text texts ih =>
      have hText := hTexts text List.mem_cons_self
      cases texts with
      | nil =>
          rw [String.intercalate_singleton]
          exact hText
      | cons next more =>
          have hMore :=
            ih fun t hLater =>
              hTexts t (List.mem_cons_of_mem text hLater)
          rw [String.intercalate_cons_cons]
          exact (hText.append (by decide)).append hMore

/- The items of an array are texts of their own. -/
theorem renderItems_eq_map
    (items : List Json) :
    renderItems items = items.map render := by
  induction items with
  | nil => rfl
  | cons item items ih => exact congrArg (item.render :: ·) ih

/- So are the fields of an object. -/
theorem renderFields_eq_map
    (fields : List (String × Json)) :
    renderFields fields =
      fields.map fun f => quote f.1 ++ ":" ++ f.2.render := by
  induction fields with
  | nil => rfl
  | cons field fields ih => exact congrArg (_ :: ·) ih

/- A number that is read to its end is plain. -/
theorem isPlain_of_readNumber
    {text : String}
    {j : Json}
    (hRead : readNumber text.toList = some (j, [])) :
    IsPlain text := by
  intro c hMem
  have hNumeric := isNumeric_of_readNumber hRead c hMem
  exact Nat.le_of_lt (opens_of_isNumeric hNumeric).1.lt_toNat

/- Nothing that is written of a value is a control character. -/
theorem IsReadable.isPlain_render
    {j : Json}
    (hReadable : j.IsReadable) :
    IsPlain j.render := by
  induction hReadable with
  | null => decide
  | bool b => cases b <;> decide
  | integer n =>
      rw [render]
      exact isPlain_of_readNumber (readNumber_toString n)
  | decimal hDigits =>
      rw [render]
      exact isPlain_of_readNumber hDigits
  | string s =>
      rw [render]
      exact isPlain_quote s
  | array _hItems ih =>
      rw [render, renderItems_eq_map]
      have hOpening : IsPlain "[" := by
        decide
      have hItems :=
        isPlain_intercalate (List.forall_mem_map.mpr ih)
      exact (hOpening.append hItems).append (by decide)
  | @object fields _hFields ih =>
      rw [render, renderFields_eq_map]
      have hOpening : IsPlain "\x7b" := by
        decide
      have hField :
          ∀ f ∈ fields,
            IsPlain (quote f.1 ++ ":" ++ f.2.render) := by
        intro f hMem
        have hColon : IsPlain ":" := by
          decide
        exact
          ((isPlain_quote f.1).append hColon).append
            (ih f hMem)
      have hFields :=
        isPlain_intercalate (List.forall_mem_map.mpr hField)
      exact (hOpening.append hFields).append (by decide)

/- A text without line feeds that gives the value. -/
structure IsLineOf
    (line : String)
    (j : Json) : Prop where
  newline_not_mem : '\n' ∉ line.toList
  parse? : Json.parse? line = some j

/- What is written of a value is a line of it. -/
theorem IsReadable.isLineOf_render
    {j : Json}
    (hReadable : j.IsReadable) :
    IsLineOf j.render j := by
  refine ⟨?_, hReadable.parse?_render⟩
  intro hMem
  exact absurd (hReadable.isPlain_render _ hMem) (by decide)

end Json

end MultiTape
