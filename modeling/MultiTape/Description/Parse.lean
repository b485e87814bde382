import MultiTape.Description.Reader
import MultiTape.Error

/-
  This file reads descriptions from texts and from bytes, with
  errors that can be reported on their own.

  Key definitions include:
    * `Description.parse`
    * `Description.decode`
-/

namespace MultiTape.Description

/- The description that a text gives. -/
def parse
    (text : List Char) : Except Error Description :=
  (read text).mapError (.description text)

/-
  The description that bytes give. The bytes are a text in UTF-8,
  of which a byte order mark is an ordinary character.
-/
def decode
    (bytes : ByteArray)
    (undecodable : Error) : Except Error Description :=
  match String.fromUTF8? bytes with
  | none => .error undecodable
  | some text => parse text.toList

end MultiTape.Description
