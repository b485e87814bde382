/-
  This file defines JSON values and writes them without spaces.

  Key definitions include:
    * `Json`
    * `Json.get?`
    * `Json.render`
-/

namespace MultiTape

/- A JSON value. The fields of an object keep their order. -/
inductive Json where
  | null
  | bool (value : Bool)
  /- A number without fraction and exponent. -/
  | integer (value : Int)
  /- Any other number, as it is written. -/
  | decimal (digits : String)
  | string (value : String)
  | array (items : List Json)
  | object (fields : List (String × Json))
  deriving Inhabited

namespace Json

/- A natural number. -/
def nat
    (n : Nat) : Json :=
  integer n

/- A list of texts. -/
def strings
    (ss : List String) : Json :=
  array (ss.map string)

/- A list of characters, each as a text. -/
def chars
    (cs : List Char) : Json :=
  array (cs.map fun c => string c.toString)

/- The value of the first field of an object with a name. -/
def get?
    (name : String) : Json → Option Json
  | object fields => (fields.find? fun f => f.1 = name).map Prod.snd
  | _ => none

------------------------------------------------------------
-- Writing
------------------------------------------------------------

/- The escape of a control character by its code point. -/
def codeEscape
    (c : Char) : String :=
  let digits := Nat.toDigits 16 c.toNat
  "\\u" ++ String.ofList (List.replicate (4 - digits.length) '0' ++ digits)

/- A character as it stands between quotes. -/
def escape
    (c : Char) : String :=
  if c = Char.ofNat 34 ∨ c = '\\' then
    "\\" ++ c.toString
  else if c = '\n' then
    "\\n"
  else if c = '\t' then
    "\\t"
  else if c = '\r' then
    "\\r"
  else if c = Char.ofNat 8 then
    "\\b"
  else if c = Char.ofNat 12 then
    "\\f"
  else if c.toNat < 32 then
    codeEscape c
  else
    c.toString

/- A text between quotes. -/
def quote
    (s : String) : String :=
  "\"" ++ String.join (s.toList.map escape) ++ "\""

mutual

/- A value in its shortest form. -/
def render : Json → String
  | null => "null"
  | bool b => if b then "true" else "false"
  | integer n => toString n
  | decimal digits => digits
  | string s => quote s
  | array items => "[" ++ ",".intercalate (renderItems items) ++ "]"
  | object fields => "\x7b" ++ ",".intercalate (renderFields fields) ++ "\x7d"

/- The items of an array. -/
def renderItems : List Json → List String
  | [] => []
  | item :: items => item.render :: renderItems items

/- The fields of an object. -/
def renderFields : List (String × Json) → List String
  | [] => []
  | (name, value) :: fields => (quote name ++ ":" ++ value.render) :: renderFields fields

end

end Json

end MultiTape
