/-
  This file defines the white space characters and the removal
  of white space around a text.

  Key definitions include:
    * `IsWhitespace`
    * `trim`
-/

namespace MultiTape.Text

/- The first and last code point of every range of white space. -/
def whitespaceRanges : List (Nat × Nat) := [
  (0x9, 0xD), (0x20, 0x20), (0x85, 0x85), (0xA0, 0xA0), (0x1680, 0x1680), (0x2000, 0x200A),
  (0x2028, 0x2029), (0x202F, 0x202F), (0x205F, 0x205F), (0x3000, 0x3000)]

/- The character is white space. -/
def IsWhitespace
    (c : Char) : Prop :=
  ∃ r ∈ whitespaceRanges, r.1 ≤ c.toNat ∧ c.toNat ≤ r.2

instance
    (c : Char) :
    Decidable (IsWhitespace c) :=
  inferInstanceAs (Decidable (∃ r ∈ whitespaceRanges, r.1 ≤ c.toNat ∧ c.toNat ≤ r.2))

/- Remove white space in front. -/
def trimLeft
    (cs : List Char) : List Char :=
  cs.dropWhile fun c => decide (IsWhitespace c)

/- Remove white space at the end. -/
def trimRight
    (cs : List Char) : List Char :=
  (trimLeft cs.reverse).reverse

/- Remove white space on both sides. -/
def trim
    (cs : List Char) : List Char :=
  trimRight (trimLeft cs)

/- The ASCII characters that core counts as white space are white space. -/
theorem isWhitespace_of_char_isWhitespace
    {c : Char}
    (h : c.isWhitespace = true) :
    IsWhitespace c := by
  simp only [Char.isWhitespace, Bool.or_eq_true, decide_eq_true_eq] at h
  rcases h with ((rfl | rfl) | rfl) | rfl <;> decide

end MultiTape.Text
