/-
  This file defines the movements of a head and the one-letter
  codes by which a description names them.

  Key definitions include:
    * `Move`
    * `Move.offset`
    * `Move.code`
    * `Move.ofCode?`
-/

namespace MultiTape

/- What a head does after writing. -/
inductive Move where
  | left
  | right
  | stay
  deriving DecidableEq, Repr

namespace Move

/- The change of the head's position. -/
def offset : Move → Int
  | left => -1
  | right => 1
  | stay => 0

/- The letter that stands for a movement. -/
def code : Move → Char
  | left => 'L'
  | right => 'R'
  | stay => 'S'

/- Read a movement from its letter; case matters. -/
def ofCode? : List Char → Option Move
  | ['L'] => some left
  | ['R'] => some right
  | ['S'] => some stay
  | _ => none

/- Codes are read back. -/
@[simp]
theorem ofCode?_code
    (m : Move) :
    ofCode? [m.code] = some m := by
  cases m <;> rfl

/- Nothing but the code of a movement is read as it. -/
theorem ofCode?_eq_some_iff
    {text : List Char}
    {m : Move} :
    ofCode? text = some m ↔ text = [m.code] := by
  constructor
  · intro h
    unfold ofCode? at h
    split at h <;> simp_all <;> subst h <;> rfl
  · rintro rfl
    exact ofCode?_code m

end Move

end MultiTape
