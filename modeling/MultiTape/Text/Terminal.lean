/-
  This file takes from a text the characters that a terminal
  might obey: the escape and a few other controls, and all
  controls above ASCII. They are written by their code points.

  Key definitions include:
    * `IsTerminalControl`
    * `disarm`
-/

namespace MultiTape.Text

------------------------------------------------------------
-- Controls
------------------------------------------------------------

/- The ASCII controls bell, backspace, form feed, escape and delete. -/
def terminalControls : List Nat :=
  [0x07, 0x08, 0x0C, 0x1B, 0x7F]

/- A control above ASCII. -/
def IsHighControl
    (c : Char) : Prop :=
  0x80 ≤ c.toNat ∧ c.toNat ≤ 0x9F

instance
    (c : Char) :
    Decidable (IsHighControl c) :=
  inferInstanceAs (Decidable (_ ∧ _))

/- A terminal might obey the character. -/
def IsTerminalControl
    (c : Char) : Prop :=
  c.toNat ∈ terminalControls ∨ IsHighControl c

instance
    (c : Char) :
    Decidable (IsTerminalControl c) :=
  inferInstanceAs (Decidable (_ ∨ _))

------------------------------------------------------------
-- Harmless text
------------------------------------------------------------

/- The hexadecimal numeral of a code point, with at least two digits. -/
def twoDigits
    (n : Nat) : String :=
  let digits := Nat.toDigits 16 n
  String.ofList (List.replicate (2 - digits.length) '0' ++ digits)

/- A character that no terminal obeys. -/
def disarmChar
    (c : Char) : String :=
  if c.toNat ∈ terminalControls then
    "\\x" ++ twoDigits c.toNat
  else if IsHighControl c then
    "\\u\x7b" ++ twoDigits c.toNat ++ "\x7d"
  else
    c.toString

/- A text that no terminal obeys. -/
def disarm
    (s : String) : String :=
  String.join (s.toList.map disarmChar)

/- Every other character stays as it is. -/
theorem disarmChar_of_not_isTerminalControl
    {c : Char}
    (h : ¬ IsTerminalControl c) :
    disarmChar c = c.toString := by
  unfold IsTerminalControl at h
  rw [not_or] at h
  rw [disarmChar, if_neg h.1, if_neg h.2]

end MultiTape.Text
