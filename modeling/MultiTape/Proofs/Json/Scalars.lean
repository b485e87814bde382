import MultiTape.Json.Read
import Mathlib.Data.List.Forall2
import Mathlib.Data.List.TakeWhile

/-
  This file reads back what is written of texts and of numbers
  in JSON.

  Key definitions include:
    * `Json.Piece.IsOf`
    * `Json.IsPlain`
    * `Json.EndsNumber`

  Main statements:
    * `Json.exists_readPieces_escape`
    * `Json.readString_escape`
    * `Json.isPlain_quote`
    * `Json.readNumber_append`
    * `Json.readNumber_toString`
-/

namespace MultiTape

namespace Json

------------------------------------------------------------
-- Strings
------------------------------------------------------------

/- The part of a string that a character is read as. -/
inductive Piece.IsOf
    (c : Char) : Piece → Prop where
  | char :
      IsOf c (.char c)
  | unit
      (hControl : c.toNat < 32) :
      IsOf c (.unit c.toNat)

/- A text without control characters, of which a line feed is one. -/
def IsPlain
    (text : String) : Prop :=
  ∀ c ∈ text.toList, 32 ≤ c.toNat

instance
    (text : String) :
    Decidable (IsPlain text) :=
  decidable_of_iff
    (text.toList.all (fun c => decide (32 ≤ c.toNat)) = true)
    ⟨fun hAll c hMem =>
        of_decide_eq_true (List.all_eq_true.mp hAll c hMem),
      fun hPlain =>
        List.all_eq_true.mpr fun c hMem =>
          decide_eq_true (hPlain c hMem)⟩

/- A text of plain parts is plain. -/
theorem IsPlain.append
    {text more : String}
    (hText : IsPlain text)
    (hMore : IsPlain more) :
    IsPlain (text ++ more) := by
  intro c hMem
  rw [String.toList_append, List.mem_append] at hMem
  rcases hMem with hLeft | hRight
  · exact hText c hLeft
  · exact hMore c hRight

/- So is a text of many plain parts. -/
theorem isPlain_join
    {texts : List String}
    (hTexts : ∀ text ∈ texts, IsPlain text) :
    IsPlain (String.join texts) := by
  intro c hMem
  rw [String.toList_join] at hMem
  rcases List.mem_flatMap.mp hMem with ⟨text, hText, hChar⟩
  exact hTexts text hText c hChar

/- The code of a control character has two digits that count. -/
theorem codeEscape_eq :
    ∀ n < 32,
      IsPlain (codeEscape (Char.ofNat n)) ∧
        (codeEscape (Char.ofNat n)).toList =
          ['\\', 'u', '0', '0', Nat.digitChar (n / 16),
            Nat.digitChar (n % 16)] ∧
        codeUnit? '0' '0' (Nat.digitChar (n / 16))
            (Nat.digitChar (n % 16)) =
          some n := by
  decide

/- An ordinary character is read as it is. -/
theorem readPieces_cons
    {c : Char}
    (hQuote : c ≠ '"')
    (hBackslash : c ≠ '\\')
    (hPlain : ¬ c.toNat < 32)
    (taken : List Piece)
    (rest : List Char) :
    readPieces taken (c :: rest) =
      readPieces (.char c :: taken) rest := by
  rw [readPieces.eq_5 taken c rest hQuote
      (fun _ _ _ _ _ hSame => absurd hSame hBackslash)
      (fun _ _ hSame => absurd hSame hBackslash),
    if_neg (not_or.mpr ⟨hBackslash, hPlain⟩)]

/-
  A character that was escaped is read as one part, and no
  control character is left. The cases are those of the escape.
-/
theorem exists_readPieces_escape
    (c : Char) :
    IsPlain (escape c) ∧
      ∃ p : Piece,
        p.IsOf c ∧
          ∀ taken rest,
            readPieces taken ((escape c).toList ++ rest) =
              readPieces (p :: taken) rest := by
  unfold escape
  split_ifs with
    hOwn hFeed hTab hReturn hBackspace hPage hControl
  · rcases hOwn with rfl | rfl
    · exact ⟨by decide, _, .char, fun _ _ => rfl⟩
    · exact ⟨by decide, _, .char, fun _ _ => rfl⟩
  · exact ⟨by decide, _, .char, hFeed ▸ fun _ _ => rfl⟩
  · exact ⟨by decide, _, .char, hTab ▸ fun _ _ => rfl⟩
  · exact ⟨by decide, _, .char, hReturn ▸ fun _ _ => rfl⟩
  · exact ⟨by decide, _, .char, hBackspace ▸ fun _ _ => rfl⟩
  · exact ⟨by decide, _, .char, hPage ▸ fun _ _ => rfl⟩
  · rcases codeEscape_eq c.toNat hControl with
      ⟨hPlain, hText, hUnit⟩
    rw [Char.ofNat_toNat] at hPlain hText
    refine ⟨hPlain, _, .unit hControl, ?_⟩
    intro taken rest
    rw [hText]
    simp [readPieces, hUnit]
  · rw [not_or] at hOwn
    refine ⟨?_, _, .char, ?_⟩
    · intro d hMem
      have hSame : d = c := by
        simpa using hMem
      rw [hSame]
      exact Nat.le_of_not_lt hControl
    · intro taken rest
      simpa using
        readPieces_cons hOwn.1 hOwn.2 hControl taken rest

/- So is a text, up to the quote after it. -/
theorem exists_readPieces_flatMap
    (cs : List Char) :
    ∃ pieces,
      List.Forall₂ Piece.IsOf cs pieces ∧
        ∀ taken rest,
          readPieces taken
              (cs.flatMap (fun c => (escape c).toList) ++
                '"' :: rest) =
            some (taken.reverse ++ pieces, rest) := by
  induction cs with
  | nil =>
      refine ⟨[], .nil, ?_⟩
      intro taken rest
      simp [readPieces]
  | cons c cs ih =>
      rcases exists_readPieces_escape c with
        ⟨_hPlain, p, hPiece, hRead⟩
      rcases ih with ⟨pieces, hPieces, hMore⟩
      refine ⟨p :: pieces, .cons hPiece hPieces, ?_⟩
      intro taken rest
      rw [List.flatMap_cons, List.append_assoc, hRead, hMore]
      simp

/- A code unit of a control character stands alone. -/
theorem joinPieces_unit
    {n : Nat}
    (hControl : n < 32)
    (taken : List Char)
    (pieces : List Piece) :
    joinPieces taken (.unit n :: pieces) =
      joinPieces (Char.ofNat n :: taken) pieces := by
  have hHigh : ¬ IsHighSurrogate n := by
    unfold IsHighSurrogate
    omega
  have hLow : ¬ IsLowSurrogate n := by
    unfold IsLowSurrogate
    omega
  cases pieces with
  | nil => simp [joinPieces, hHigh, hLow]
  | cons p pieces =>
      cases p with
      | char c => simp [joinPieces, hHigh, hLow]
      | unit m => simp [joinPieces, hHigh, hLow]

/- The parts are put together to the text. -/
theorem joinPieces_eq_some
    {cs : List Char}
    {pieces : List Piece}
    (hPieces : List.Forall₂ Piece.IsOf cs pieces)
    (taken : List Char) :
    joinPieces taken pieces = some (taken.reverse ++ cs) := by
  induction hPieces generalizing taken with
  | nil => simp [joinPieces]
  | cons hPiece _hMore ih =>
      cases hPiece with
      | char =>
          rw [joinPieces, ih]
          simp
      | unit hControl =>
          rw [joinPieces_unit hControl, Char.ofNat_toNat, ih]
          simp

/- A text is read from between its quotes. -/
theorem readString_escape
    (s : String)
    (rest : List Char) :
    readString
        (s.toList.flatMap (fun c => (escape c).toList) ++
          '"' :: rest) =
      some (s, rest) := by
  rcases exists_readPieces_flatMap s.toList with
    ⟨pieces, hPieces, hRead⟩
  unfold readString
  rw [hRead]
  simp [joinPieces_eq_some hPieces]

/- The characters of a text between quotes. -/
theorem toList_quote
    (s : String) :
    (quote s).toList =
      '"' :: s.toList.flatMap (fun c => (escape c).toList) ++
        ['"'] := by
  unfold quote
  simp [String.toList_join, List.flatMap_map]

/- A text between quotes is plain. -/
theorem isPlain_quote
    (s : String) :
    IsPlain (quote s) := by
  have hEscaped :
      IsPlain (String.join (s.toList.map escape)) := by
    apply isPlain_join
    intro text hText
    rcases List.mem_map.mp hText with ⟨c, _hMem, rfl⟩
    exact (exists_readPieces_escape c).1
  have hQuote : IsPlain "\"" := by
    decide
  exact (hQuote.append hEscaped).append hQuote

------------------------------------------------------------
-- Numbers
------------------------------------------------------------

/- A text with which no number goes on. -/
def EndsNumber
    (rest : List Char) : Prop :=
  ∀ c ∈ rest.head?, isNumeric c = false

/- No number goes on with another character. -/
theorem endsNumber_cons
    {c : Char}
    (hOther : isNumeric c = false)
    (rest : List Char) :
    EndsNumber (c :: rest) := by
  intro d hHead
  cases hHead
  exact hOther

/- All characters of numbers. -/
theorem mem_of_isNumeric
    {c : Char}
    (hNumeric : isNumeric c = true) :
    c ∈ "0123456789-+.eE".toList := by
  unfold isNumeric at hNumeric
  simp only [Bool.or_eq_true, decide_eq_true_eq] at hNumeric
  rcases hNumeric with
    ((((hDigit | rfl) | rfl) | rfl) | rfl) | rfl
  · have hBounds := Char.isDigit_iff_toNat.mp hDigit
    have hDigits :
        ∀ n < 10,
          Char.ofNat (n + 48) ∈ "0123456789-+.eE".toList := by
      decide
    have hLess : c.toNat - 48 < 10 := by
      have hLast : c.toNat ≤ 57 := hBounds.2
      omega
    have hFirst : 48 ≤ c.toNat := hBounds.1
    have hMem := hDigits (c.toNat - 48) hLess
    rw [Nat.sub_add_cancel hFirst, Char.ofNat_toNat] at hMem
    exact hMem
  · decide
  · decide
  · decide
  · decide
  · decide

/- What is read to its end has only characters of numbers. -/
theorem isNumeric_of_readNumber
    {cs : List Char}
    {j : Json}
    (hRead : readNumber cs = some (j, [])) :
    ∀ c ∈ cs, isNumeric c = true := by
  rcases Option.map_eq_some_iff.mp hRead with
    ⟨n, _hNumber, hPair⟩
  exact List.dropWhile_eq_nil_iff.mp (congrArg Prod.snd hPair)

/- A number is read up to where it ends. -/
theorem readNumber_append
    {cs rest : List Char}
    {j : Json}
    (hRead : readNumber cs = some (j, []))
    (hEnds : EndsNumber rest) :
    readNumber (cs ++ rest) = some (j, rest) := by
  have hAll := isNumeric_of_readNumber hRead
  have hTake := List.takeWhile_eq_self_iff.mpr hAll
  unfold readNumber at hRead ⊢
  rw [hTake, List.dropWhile_eq_nil_iff.mpr hAll] at hRead
  have hRest :
      rest.takeWhile isNumeric = [] ∧
        rest.dropWhile isNumeric = rest := by
    cases rest with
    | nil => exact ⟨rfl, rfl⟩
    | cons c rest =>
        have hNot : isNumeric c = false := hEnds c rfl
        simp [hNot]
  rw [List.takeWhile_append_of_pos hAll,
    List.dropWhile_append_of_pos hAll, hRest.1, hRest.2,
    List.append_nil]
  rcases Option.map_eq_some_iff.mp hRead with
    ⟨n, hNumber, hPair⟩
  cases hPair
  rw [hNumber]
  rfl

/- A number that is read to its end begins as numbers do. -/
theorem exists_eq_cons_of_readNumber
    {cs : List Char}
    {j : Json}
    (hRead : readNumber cs = some (j, [])) :
    ∃ d ds, cs = d :: ds ∧ isNumeric d = true := by
  cases cs with
  | nil => cases hRead
  | cons d ds =>
      have hNumeric :=
        isNumeric_of_readNumber hRead d List.mem_cons_self
      exact ⟨d, ds, rfl, hNumeric⟩

/- The numeral of a positive number does not begin with zero. -/
theorem head?_toDigits_ne
    {n : Nat}
    (hPos : 0 < n) :
    (Nat.toDigits 10 n).head? ≠ some '0' := by
  induction n using Nat.strongRecOn with
  | ind n ih =>
      by_cases hSmall : n < 10
      · have hDigits :
            ∀ k < 10, 0 < k →
              [Nat.digitChar k].head? ≠ some '0' := by
          decide
        rw [Nat.toDigits_of_lt_base hSmall]
        exact hDigits n hSmall hPos
      · have hLarge : 10 ≤ n := Nat.le_of_not_lt hSmall
        have hRest :=
          ih (n / 10) (Nat.div_lt_self hPos (by decide))
            (Nat.div_pos hLarge (by decide))
        rw [Nat.toDigits_of_base_le (by decide) hLarge,
          List.head?_append_of_ne_nil _ Nat.toDigits_ne_nil]
        exact hRest

/- A numeral is a whole number as it should be written. -/
theorem isWhole_toDigits
    (n : Nat) :
    IsWhole (Nat.toDigits 10 n) := by
  refine ⟨Nat.toDigits_ne_nil, ?_, ?_⟩
  · rw [List.all_eq_true]
    intro c hMem
    exact
      Nat.isDigit_of_mem_toDigits (by decide) (by decide) hMem
  · intro hZero
    rcases Nat.eq_zero_or_pos n with rfl | hPos
    · rfl
    · exact absurd hZero (head?_toDigits_ne hPos)

/- All characters of a whole number are digits. -/
theorem IsWhole.takeWhile_and_dropWhile
    {digits : List Char}
    (hWhole : IsWhole digits) :
    digits.takeWhile Char.isDigit = digits ∧
      digits.dropWhile Char.isDigit = [] := by
  have hDigits := List.all_eq_true.mp hWhole.2.1
  exact
    ⟨List.takeWhile_eq_self_iff.mpr hDigits,
      List.dropWhile_eq_nil_iff.mpr hDigits⟩

/- A whole number is read. -/
theorem number?_of_isWhole
    {digits : List Char}
    (hWhole : IsWhole digits) :
    number? digits =
      some (integer (Nat.ofDigitChars 10 digits 0)) := by
  rcases hWhole.takeWhile_and_dropWhile with ⟨hTake, hDrop⟩
  have hMinus : ∀ rest, digits ≠ '-' :: rest := by
    intro rest hEq
    have hDigit :=
      List.all_eq_true.mp hWhole.2.1 '-' (by simp [hEq])
    exact absurd hDigit (by decide)
  have hPart : IsWhole digits ∧ isFraction [] = true :=
    ⟨hWhole, rfl⟩
  unfold number?
  split
  · next negative unsigned hSign =>
      split at hSign
      · next rest => exact absurd rfl (hMinus rest)
      · cases hSign
        simp only [hTake, hDrop]
        rw [if_pos hPart, if_neg (by simp), if_neg (by simp)]

/- So is one with a sign, if it is not zero. -/
theorem number?_minus_of_isWhole
    {digits : List Char}
    (hWhole : IsWhole digits)
    (hValue : Nat.ofDigitChars 10 digits 0 ≠ 0) :
    number? ('-' :: digits) =
      some (integer (-Nat.ofDigitChars 10 digits 0)) := by
  rcases hWhole.takeWhile_and_dropWhile with ⟨hTake, hDrop⟩
  have hPart : IsWhole digits ∧ isFraction [] = true :=
    ⟨hWhole, rfl⟩
  unfold number?
  simp only [hTake, hDrop]
  rw [if_pos hPart, if_neg (by simp [hValue]), if_pos trivial]

/- The characters of a numeral with its sign. -/
theorem toList_toString_int
    (n : Int) :
    (toString n).toList =
      (if n < 0 then ['-'] else []) ++
        Nat.toDigits 10 n.natAbs := by
  rw [Int.toString_eq_repr]
  cases n with
  | ofNat k =>
      have hNot : ¬ Int.ofNat k < 0 :=
        Int.not_lt.mpr (Int.natCast_nonneg k)
      rw [if_neg hNot]
      exact Nat.toList_repr
  | negSucc k =>
      rw [if_pos (Int.negSucc_lt_zero k)]
      simp [Int.repr]

/- The numeral of an integer is read. -/
theorem number?_toString
    (n : Int) :
    number? (toString n).toList = some (integer n) := by
  have hValue :
      Nat.ofDigitChars 10 (Nat.toDigits 10 n.natAbs) 0 =
        n.natAbs :=
    Nat.ofDigitChars_toDigits (by decide) (by decide)
  have hWhole := isWhole_toDigits n.natAbs
  rw [toList_toString_int]
  by_cases hNegative : n < 0
  · rw [if_pos hNegative, List.singleton_append,
      number?_minus_of_isWhole hWhole (by omega), hValue]
    congr 2
    omega
  · rw [if_neg hNegative, List.nil_append,
      number?_of_isWhole hWhole, hValue]
    congr 2
    omega

/- All of its characters are such as numbers have. -/
theorem isNumeric_of_mem_toString
    {n : Int}
    {c : Char}
    (hMem : c ∈ (toString n).toList) :
    isNumeric c = true := by
  rw [toList_toString_int, List.mem_append] at hMem
  rcases hMem with hSign | hDigit
  · split at hSign
    · rw [List.mem_singleton.mp hSign]
      rfl
    · cases hSign
  · have hDigit : c.isDigit = true :=
      Nat.isDigit_of_mem_toDigits (by decide) (by decide)
        hDigit
    unfold isNumeric
    rw [hDigit]
    rfl

/- It is read to its end. -/
theorem readNumber_toString
    (n : Int) :
    readNumber (toString n).toList = some (integer n, []) := by
  have hAll :
      ∀ c ∈ (toString n).toList, isNumeric c = true :=
    fun _ => isNumeric_of_mem_toString
  unfold readNumber
  rw [List.takeWhile_eq_self_iff.mpr hAll,
    List.dropWhile_eq_nil_iff.mpr hAll, number?_toString]
  rfl

end Json

end MultiTape
