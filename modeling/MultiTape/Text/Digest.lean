/-
  This file makes numbers from texts. Different texts mostly
  have different numbers, already in the lowest bits.

  Key definitions include:
    * `mix`
    * `digest`
-/

namespace MultiTape.Text

/- Take one more character into a digest. -/
def mix
    (n : Nat)
    (c : Char) : Nat :=
  (n * 16777619 + c.toNat) % 4294967296

/- Take the characters of a text into a digest. -/
def digest
    (n : Nat)
    (cs : List Char) : Nat :=
  cs.foldl mix n

end MultiTape.Text
