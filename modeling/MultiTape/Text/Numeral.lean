/-
  This file reads decimal numerals of counts. A count fits into
  sixty-four bits.

  Key definitions include:
    * `countBound`
    * `count?`

  Main statements:
    * `count?_toDigits`
-/

namespace MultiTape.Text

/- All counts are below this number, two to the power of sixty-four. -/
def countBound : Nat :=
  18446744073709551616

/- The digits of a numeral, without the one plus sign allowed in front. -/
def numeralDigits : List Char → List Char
  | '+' :: rest => rest
  | cs => cs

/-
  The count that a numeral stands for: ASCII digits, at least
  one, after at most one plus sign. Leading zeros are allowed.
-/
def count?
    (cs : List Char) : Option Nat :=
  let digits := numeralDigits cs
  let value := Nat.ofDigitChars 10 digits 0
  if digits ≠ [] ∧ digits.all Char.isDigit ∧ value < countBound then
    some value
  else
    none

private theorem numeralDigits_toDigits
    (n : Nat) :
    numeralDigits (Nat.toDigits 10 n) = Nat.toDigits 10 n := by
  have hDigits : ∀ c ∈ Nat.toDigits 10 n, c.isDigit = true := fun c hc =>
    Nat.isDigit_of_mem_toDigits (by decide) (by decide) hc
  unfold numeralDigits
  split
  · next rest hEq =>
      have hPlus := hDigits '+' (by rw [hEq]; exact List.mem_cons_self)
      exact absurd hPlus (by decide)
  · rfl

/- The decimal numeral of a count is read back. -/
theorem count?_toDigits
    {n : Nat}
    (h : n < countBound) :
    count? (Nat.toDigits 10 n) = some n := by
  have hDigits : (Nat.toDigits 10 n).all Char.isDigit = true := by
    rw [List.all_eq_true]
    exact fun c hc => Nat.isDigit_of_mem_toDigits (by decide) (by decide) hc
  have hValue : Nat.ofDigitChars 10 (Nat.toDigits 10 n) 0 = n :=
    Nat.ofDigitChars_toDigits (by decide) (by decide)
  have hNe : Nat.toDigits 10 n ≠ [] := Nat.toDigits_ne_nil
  simp [count?, numeralDigits_toDigits, hDigits, hValue, hNe, h]

end MultiTape.Text
