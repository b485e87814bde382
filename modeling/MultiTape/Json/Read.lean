import MultiTape.Json.Basic

/-
  This file reads JSON values from texts.

  Key definitions include:
    * `Json.readString`
    * `Json.readNumber`
    * `Json.readValue`
    * `Json.parse?`
-/

namespace MultiTape.Json

------------------------------------------------------------
-- Strings
------------------------------------------------------------

/- A part of a string: a character, or a code unit from an escape. -/
inductive Piece where
  | char (c : Char)
  | unit (n : Nat)
  deriving DecidableEq, Repr

/- The value of a hexadecimal digit. -/
def hexDigit?
    (c : Char) : Option Nat :=
  if '0' ≤ c ∧ c ≤ '9' then
    some (c.toNat - '0'.toNat)
  else if 'a' ≤ c ∧ c ≤ 'f' then
    some (c.toNat - 'a'.toNat + 10)
  else if 'A' ≤ c ∧ c ≤ 'F' then
    some (c.toNat - 'A'.toNat + 10)
  else
    none

/- The code unit of four hexadecimal digits. -/
def codeUnit?
    (a b c d : Char) : Option Nat := do
  let a ← hexDigit? a
  let b ← hexDigit? b
  let c ← hexDigit? c
  let d ← hexDigit? d
  return ((a * 16 + b) * 16 + c) * 16 + d

/- The character that a letter after a backslash stands for. -/
def escaped? : Char → Option Char
  | '"' => some '"'
  | '\\' => some '\\'
  | '/' => some '/'
  | 'b' => some (Char.ofNat 8)
  | 'f' => some (Char.ofNat 12)
  | 'n' => some '\n'
  | 'r' => some '\r'
  | 't' => some '\t'
  | _ => none

/- Read up to the closing quote, with the pieces before in reverse order. -/
def readPieces
    (taken : List Piece) : List Char → Option (List Piece × List Char)
  | [] => none
  | '"' :: rest => some (taken.reverse, rest)
  | '\\' :: 'u' :: a :: b :: c :: d :: rest =>
      match codeUnit? a b c d with
      | none => none
      | some n => readPieces (.unit n :: taken) rest
  | '\\' :: c :: rest =>
      match escaped? c with
      | none => none
      | some e => readPieces (.char e :: taken) rest
  | c :: rest =>
      if c = '\\' ∨ c.toNat < 32 then
        none
      else
        readPieces (.char c :: taken) rest

/- The code unit begins a pair. -/
def IsHighSurrogate
    (n : Nat) : Prop :=
  0xD800 ≤ n ∧ n < 0xDC00

instance
    (n : Nat) :
    Decidable (IsHighSurrogate n) :=
  inferInstanceAs (Decidable (_ ∧ _))

/- The code unit ends a pair. -/
def IsLowSurrogate
    (n : Nat) : Prop :=
  0xDC00 ≤ n ∧ n < 0xE000

instance
    (n : Nat) :
    Decidable (IsLowSurrogate n) :=
  inferInstanceAs (Decidable (_ ∧ _))

/- Put pairs of code units together; none may stand alone. -/
def joinPieces
    (taken : List Char) : List Piece → Option (List Char)
  | [] => some taken.reverse
  | .char c :: rest => joinPieces (c :: taken) rest
  | .unit n :: .unit m :: rest =>
      if IsHighSurrogate n then
        if IsLowSurrogate m then
          joinPieces (Char.ofNat (0x10000 + (n - 0xD800) * 0x400 + (m - 0xDC00)) :: taken) rest
        else
          none
      else if IsLowSurrogate n then
        none
      else
        joinPieces (Char.ofNat n :: taken) (.unit m :: rest)
  | .unit n :: rest =>
      if IsHighSurrogate n ∨ IsLowSurrogate n then
        none
      else
        joinPieces (Char.ofNat n :: taken) rest

/- Read a string after its opening quote. -/
def readString
    (cs : List Char) : Option (String × List Char) := do
  let (pieces, rest) ← readPieces [] cs
  let chars ← joinPieces [] pieces
  return (String.ofList chars, rest)

------------------------------------------------------------
-- Numbers
------------------------------------------------------------

/- The characters that numbers are made of. -/
def isNumeric
    (c : Char) : Bool :=
  c.isDigit || c = '-' || c = '+' || c = '.' || c = 'e' || c = 'E'

/- Digits, at least one, of which only a single one may begin with zero. -/
def IsWhole
    (digits : List Char) : Prop :=
  digits ≠ [] ∧ digits.all Char.isDigit = true ∧ (digits.head? = some '0' → digits.length = 1)

instance
    (digits : List Char) :
    Decidable (IsWhole digits) :=
  inferInstanceAs (Decidable (_ ∧ _ ∧ (_ → _)))

/- An exponent, or nothing. -/
def isExponent : List Char → Bool
  | [] => true
  | e :: rest =>
      let digits :=
        match rest with
        | '+' :: ds => ds
        | '-' :: ds => ds
        | ds => ds
      (e = 'e' || e = 'E') && !digits.isEmpty && digits.all Char.isDigit

/- A fraction and an exponent, each or nothing. -/
def isFraction : List Char → Bool
  | '.' :: rest =>
      !(rest.takeWhile Char.isDigit).isEmpty && isExponent (rest.dropWhile Char.isDigit)
  | rest => isExponent rest

/-
  The number that is written. A zero with a sign, like all that
  has a fraction or an exponent, is kept as it is written.
-/
def number?
    (cs : List Char) : Option Json :=
  let (negative, unsigned) :=
    match cs with
    | '-' :: rest => (true, rest)
    | rest => (false, rest)
  let whole := unsigned.takeWhile Char.isDigit
  let tail := unsigned.dropWhile Char.isDigit
  if IsWhole whole ∧ isFraction tail = true then
    let value := Nat.ofDigitChars 10 whole 0
    if tail ≠ [] ∨ (negative = true ∧ value = 0) then
      some (decimal (String.ofList cs))
    else if negative then
      some (integer (-value))
    else
      some (integer value)
  else
    none

/- Read a number. -/
def readNumber
    (cs : List Char) : Option (Json × List Char) :=
  (number? (cs.takeWhile isNumeric)).map fun n => (n, cs.dropWhile isNumeric)

------------------------------------------------------------
-- Values
------------------------------------------------------------

/- Leave out space between values. -/
def skipSpace
    (cs : List Char) : List Char :=
  cs.dropWhile fun c => c = ' ' || c = '\t' || c = '\n' || c = '\r'

mutual

/- Read a value. -/
def readValue : Nat → List Char → Option (Json × List Char)
  | 0, _ => none
  | fuel + 1, cs =>
      match skipSpace cs with
      | '"' :: rest => (readString rest).map fun (s, rest) => (string s, rest)
      | '[' :: rest =>
          match skipSpace rest with
          | ']' :: rest => some (array [], rest)
          | _ => (readItems fuel rest).map fun (items, rest) => (array items, rest)
      | '\x7b' :: rest =>
          match skipSpace rest with
          | '\x7d' :: rest => some (object [], rest)
          | _ => (readFields fuel rest).map fun (fields, rest) => (object fields, rest)
      | 'n' :: 'u' :: 'l' :: 'l' :: rest => some (null, rest)
      | 't' :: 'r' :: 'u' :: 'e' :: rest => some (bool true, rest)
      | 'f' :: 'a' :: 'l' :: 's' :: 'e' :: rest => some (bool false, rest)
      | rest => readNumber rest

/- Read the items of an array, at least one, and the closing bracket. -/
def readItems : Nat → List Char → Option (List Json × List Char)
  | 0, _ => none
  | fuel + 1, cs =>
      match readValue fuel cs with
      | none => none
      | some (item, rest) =>
          match skipSpace rest with
          | ',' :: rest => (readItems fuel rest).map fun (items, rest) => (item :: items, rest)
          | ']' :: rest => some ([item], rest)
          | _ => none

/- Read the fields of an object, at least one, and the closing brace. -/
def readFields : Nat → List Char → Option (List (String × Json) × List Char)
  | 0, _ => none
  | fuel + 1, cs =>
      match skipSpace cs with
      | '"' :: rest =>
          match readString rest with
          | none => none
          | some (name, rest) =>
              match skipSpace rest with
              | ':' :: rest =>
                  match readValue fuel rest with
                  | none => none
                  | some (value, rest) =>
                      match skipSpace rest with
                      | ',' :: rest =>
                          (readFields fuel rest).map fun (fields, rest) =>
                            ((name, value) :: fields, rest)
                      | '\x7d' :: rest => some ([(name, value)], rest)
                      | _ => none
              | _ => none
      | _ => none

end

/- The value that a text gives. No value takes more calls than two for each character. -/
def parse?
    (text : String) : Option Json :=
  let cs := text.toList
  match readValue (2 * cs.length + 2) cs with
  | some (value, rest) => if skipSpace rest = [] then some value else none
  | none => none

end MultiTape.Json
