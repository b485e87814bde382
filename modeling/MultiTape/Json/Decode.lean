import MultiTape.Json.Encode
import MultiTape.Text.Numeral

/-
  This file reads descriptions and verdicts from their JSON form.
  A record is an object, or an array that holds the values of its
  fields in order. All fields of an object have to be there but
  the mode, which is to overwrite if nothing is said; other
  fields are ignored. A name may stand alone or as the one field
  of an object, with null. Neither the number of tapes nor the
  length of the parts of a rule is checked.

  Key definitions include:
    * `Json.asRecord?`
    * `Json.asName?`
    * `Rule.ofJson?`
    * `Description.ofJson?`
    * `Verdict.ofJson?`
-/

namespace MultiTape

------------------------------------------------------------
-- Values
------------------------------------------------------------

namespace Json

/- A text. -/
def asString? : Json → Option String
  | string s => some s
  | _ => none

/- A text of one character. -/
def asChar? : Json → Option Char
  | string s =>
      match s.toList with
      | [c] => some c
      | _ => none
  | _ => none

/- A count. -/
def asCount? : Json → Option Nat
  | integer (.ofNat n) => if n < Text.countBound then some n else none
  | _ => none

/- A name, alone or as the one field of an object. -/
def asName? : Json → Option String
  | string s => some s
  | object [(s, null)] => some s
  | _ => none

/- An object; an array has its items named in order. -/
def asRecord?
    (names : List String) : Json → Option Json
  | object fields => some (object fields)
  | array items =>
      if items.length = names.length then
        some (object (names.zip items))
      else
        none
  | _ => none

/- A list, all items of which can be read. -/
def asList?
    {α : Type}
    (item? : Json → Option α) : Json → Option (List α)
  | array items => items.mapM item?
  | _ => none

end Json

/- A movement by its name. -/
def Move.ofJson?
    (j : Json) : Option Move :=
  match j.asName? with
  | some "Left" => some .left
  | some "Right" => some .right
  | some "Stay" => some .stay
  | _ => none

/- A mode by its name. -/
def Mode.ofJson?
    (j : Json) : Option Mode :=
  match j.asName? with
  | some "Overwrite" => some .overwrite
  | some "Strict" => some .strict
  | _ => none

------------------------------------------------------------
-- Records
------------------------------------------------------------

/- The fields of a rule in order. -/
def Rule.fieldNames : List String :=
  ["state", "read", "next_state", "write", "directions"]

/- A rule from a record. -/
def Rule.ofJson?
    (j : Json) : Option Rule := do
  let r ← j.asRecord? fieldNames
  let state ← (← r.get? "state").asString?
  let read ← (← r.get? "read").asList? Json.asChar?
  let nextState ← (← r.get? "next_state").asString?
  let write ← (← r.get? "write").asList? Json.asChar?
  let moves ← (← r.get? "directions").asList? Move.ofJson?
  return ⟨state, read, nextState, write, moves⟩

/- The fields of a description in order. -/
def Description.fieldNames : List String :=
  ["name", "tapes", "input", "states", "start", "accept", "mode", "transitions"]

/- A description from a record. -/
def Description.ofJson?
    (j : Json) : Option Description := do
  let r ← j.asRecord? fieldNames
  let name ← (← r.get? "name").asString?
  let tapes ← (← r.get? "tapes").asCount?
  let input ← (← r.get? "input").asString?
  let states ← (← r.get? "states").asList? Json.asString?
  let start ← (← r.get? "start").asString?
  let accept ← (← r.get? "accept").asList? Json.asString?
  let mode ←
    match r.get? "mode" with
    | none => some .overwrite
    | some m => Mode.ofJson? m
  let rules ← (← r.get? "transitions").asList? Rule.ofJson?
  return ⟨name, tapes, input.toList, states, start, accept, mode, rules⟩

/- A verdict by its name, or from an object with the record of a key. -/
def Verdict.ofJson?
    (j : Json) : Option Verdict :=
  match j.asName?, j with
  | some "Accept", _ => some .accept
  | some "Reject", _ => some .reject
  | _, .object [("RejectedByMissingTransition", key)] => do
      let r ← key.asRecord? ["state", "symbols"]
      let state ← (← r.get? "state").asString?
      let symbols ← (← r.get? "symbols").asList? Json.asChar?
      return .missingTransition ⟨state, symbols⟩
  | _, _ => none

end MultiTape
