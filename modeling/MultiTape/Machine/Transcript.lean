import MultiTape.Machine.Basic

/-
  This file writes down a run for the eye: the machine, every
  step with all tapes, and the verdict.

  Key definitions include:
    * `Transcript.header`
    * `Transcript.step`
    * `Transcript.verdict`
-/

namespace MultiTape.Transcript

/- The line between two parts. -/
def separator : String :=
  "------------------"

/- Characters with a space between each two. -/
def spaced
    (cs : List Char) : String :=
  " ".intercalate (cs.map Char.toString)

/- What stands before the first step. -/
def header
    (m : Machine) : String :=
  "Machine Name: " ++ m.name ++ "\nInput String: " ++ String.ofList m.input ++
    "\nStart State : " ++ m.start

/- A caret in the place of the head. -/
def pointer
    (t : Tape) : List Char :=
  List.replicate t.left.length ' ' ++ '^' :: List.replicate t.right.length ' '

/- The two lines of a tape. -/
def tapeLines
    (index : Nat)
    (t : Tape) : List String :=
  [s!"Tape {index}: " ++ spaced t.cells, "        " ++ spaced (pointer t)]

/- The lines of tapes, numbered from the given number on. -/
def tapesLines : Nat → List Tape → List String
  | _, [] => []
  | index, t :: ts => tapeLines index t ++ tapesLines (index + 1) ts

/- A step and the tapes after it. -/
def step
    (s : Step)
    (c : Configuration) : String :=
  let index := s.index
  let next := s.nextState
  "\n".intercalate
    ([separator, s!"Step {index}", s!"Next State: {next}"] ++ tapesLines 0 c.tapes)

/- What stands after the last step. -/
def verdict
    (v : Verdict)
    (input : List Symbol) : String :=
  let word := String.ofList input
  separator ++ "\n" ++
    match v with
    | .accept => s!"{word} is Accepted."
    | .reject => s!"{word} is NOT Accepted."
    | .missingTransition key =>
        "Transition (" ++ key.state ++ ", (" ++ spaced key.read ++ ")) does not exist.\n" ++
          s!"{word} is NOT Accepted."

end MultiTape.Transcript
