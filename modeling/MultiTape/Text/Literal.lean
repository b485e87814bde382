import MultiTape.Text.Unprintable

/-
  This file writes characters and texts so that every character
  can be seen: between quotes, with escapes for the quote, the
  backslash and all that has no visible form. Messages and
  events show symbols and states in this form.

  Key definitions include:
    * `escape`
    * `charLiteral`
    * `stringLiteral`
    * `listLiteral`
-/

namespace MultiTape.Text

/- The escape of a character by its code point. -/
def codePointEscape
    (c : Char) : String :=
  "\\u\x7b" ++ String.ofList (Nat.toDigits 16 c.toNat) ++ "\x7d"

/- A character as it stands between two of the given quotes. -/
def escape
    (quote : Char)
    (c : Char) : String :=
  if c = Char.ofNat 0 then
    "\\0"
  else if c = '\t' then
    "\\t"
  else if c = '\r' then
    "\\r"
  else if c = '\n' then
    "\\n"
  else if c = quote ∨ c = '\\' then
    "\\" ++ c.toString
  else if IsUnprintable c then
    codePointEscape c
  else
    c.toString

/- A character between single quotes. -/
def charLiteral
    (c : Char) : String :=
  "'" ++ escape (Char.ofNat 39) c ++ "'"

/- A text between double quotes. -/
def stringLiteral
    (s : String) : String :=
  "\"" ++ String.join (s.toList.map (escape (Char.ofNat 34))) ++ "\""

/- A list between square brackets. -/
def listLiteral
    (items : List String) : String :=
  "[" ++ ", ".intercalate items ++ "]"

/- A list of characters. -/
def charsLiteral
    (cs : List Char) : String :=
  listLiteral (cs.map charLiteral)

/- A list of texts. -/
def stringsLiteral
    (ss : List String) : String :=
  listLiteral (ss.map stringLiteral)

end MultiTape.Text
