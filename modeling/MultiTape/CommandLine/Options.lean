import MultiTape.Text.Numeral

/-
  This file reads the arguments of the command line. Arguments
  are taken in order: the version is asked for as soon as its
  flag is met, and a mistake counts as soon as it is met.

  Key definitions include:
    * `Options`
    * `Invocation`
    * `Argument.ofString`
    * `Draft.parse?`
    * `Invocation.parse?`
-/

namespace MultiTape.CommandLine

------------------------------------------------------------
-- Options
------------------------------------------------------------

/- What is written while a machine runs. -/
inductive Output where
  /- The machine, every step and the verdict. -/
  | transcript
  /- The verdict only. -/
  | quiet
  /- A JSON object for every step and for the verdict. -/
  | json
  deriving DecidableEq, Repr

/- How a machine is to be run. -/
structure Options where
  /- The path of the description; a dash stands for standard input. -/
  description : String
  /- What is written. -/
  output : Output
  /- The limit on steps. -/
  maxSteps : Option Nat
  /- Whether findings and overwritten actions are errors. -/
  strict : Bool
  /- Whether more is logged than warnings. -/
  verbose : Bool
  deriving DecidableEq, Repr

/- What is asked of the program. -/
inductive Invocation where
  | version
  | help
  | simulate (options : Options)
  deriving DecidableEq, Repr

------------------------------------------------------------
-- Flags
------------------------------------------------------------

/- The flags that are either given or not. -/
inductive Flag where
  | quiet
  | json
  | strict
  | verbose
  deriving DecidableEq, Repr

/- What a single flag means. -/
inductive Meaning where
  | flag (f : Flag)
  | version
  | help
  deriving DecidableEq, Repr

/- The meaning of a letter after a dash. -/
def shortMeaning? : Char → Option Meaning
  | 'q' => some (.flag .quiet)
  | 'v' => some (.flag .verbose)
  | 'V' => some .version
  | 'h' => some .help
  | _ => none

/- The meaning of a word after two dashes. -/
def longMeaning? : String → Option Meaning
  | "quiet" => some (.flag .quiet)
  | "json" => some (.flag .json)
  | "strict" => some (.flag .strict)
  | "verbose" => some (.flag .verbose)
  | "version" => some .version
  | "help" => some .help
  | _ => none

------------------------------------------------------------
-- Arguments
------------------------------------------------------------

/- What an argument looks like. -/
inductive Argument where
  /- Two dashes: all that follows are paths. -/
  | separator
  /- The limit on steps, which the next argument gives. -/
  | limit
  /- The limit on steps, with its numeral after an equals sign. -/
  | limitOf (numeral : List Char)
  /- A word after two dashes. -/
  | word (name : String)
  /- Letters after a dash. -/
  | letters (first : Char) (rest : List Char)
  /- Anything else, a single dash included. -/
  | path
  deriving DecidableEq, Repr

namespace Argument

/- The name of the option that takes a numeral. -/
def limitName : List Char :=
  "max-steps".toList

/- A word after two dashes. -/
def ofWord
    (name : List Char) : Argument :=
  if name = limitName then
    limit
  else if (limitName ++ ['=']).isPrefixOf name then
    limitOf (name.drop (limitName.length + 1))
  else
    word (String.ofList name)

/- Tell arguments apart by the dashes in front. -/
def ofString
    (arg : String) : Argument :=
  match arg.toList with
  | ['-', '-'] => separator
  | '-' :: '-' :: name => ofWord name
  | '-' :: c :: cs => letters c cs
  | _ => path

end Argument

------------------------------------------------------------
-- Drafts
------------------------------------------------------------

/- What the arguments so far have said. -/
structure Draft where
  flags : List Flag
  maxSteps : Option Nat
  description : Option String
  deriving DecidableEq, Repr

/- What came of one argument: more are taken, or it decides alone. -/
inductive Progress where
  | more (draft : Draft)
  | decided (invocation : Invocation)
  deriving DecidableEq, Repr

namespace Draft

/- Nothing was said. -/
def empty : Draft :=
  ⟨[], none, none⟩

/- Give a flag, which must not be given twice. -/
def raise?
    (d : Draft)
    (f : Flag) : Option Draft :=
  if f ∈ d.flags then none else some { d with flags := f :: d.flags }

/- Give the limit on steps, which must not be given twice. -/
def limit?
    (d : Draft)
    (numeral : List Char) : Option Draft :=
  match d.maxSteps, Text.count? numeral with
  | none, some n => some { d with maxSteps := some n }
  | _, _ => none

/- Give the path of the description, of which there is only one. -/
def describe?
    (d : Draft)
    (path : String) : Option Draft :=
  match d.description with
  | none => some { d with description := some path }
  | some _ => none

/- What is written; the two flags about it exclude each other. -/
def output?
    (d : Draft) : Option Output :=
  if .json ∈ d.flags then
    if .quiet ∈ d.flags then none else some .json
  else if .quiet ∈ d.flags then
    some .quiet
  else
    some .transcript

/- The options when all arguments were taken. -/
def finish?
    (d : Draft) : Option Invocation := do
  let description ← d.description
  let output ← d.output?
  return .simulate {
    description := description
    output := output
    maxSteps := d.maxSteps
    strict := decide (.strict ∈ d.flags)
    verbose := decide (.verbose ∈ d.flags) }

/- Take the meaning of a flag. -/
def take?
    (d : Draft) : Meaning → Option Progress
  | .flag f => (d.raise? f).map .more
  | .version => some (.decided .version)
  | .help => some (.decided .help)

/- Take letters, up to the first that decides alone. -/
def takeLetters?
    (d : Draft) : List Char → Option Progress
  | [] => some (.more d)
  | c :: cs => do
      match ← d.take? (← shortMeaning? c) with
      | .more next => next.takeLetters? cs
      | .decided i => return .decided i

/- Take arguments in order. -/
def parse?
    (d : Draft) : List String → Option Invocation
  | [] => d.finish?
  | arg :: args =>
      match Argument.ofString arg with
      | .separator => do
          (← args.foldlM describe? d).finish?
      | .path => do
          (← d.describe? arg).parse? args
      | .limit =>
          match args with
          | [] => none
          | value :: args =>
              if Argument.ofString value = .path then do
                (← d.limit? value.toList).parse? args
              else
                none
      | .limitOf numeral => do
          (← d.limit? numeral).parse? args
      | .word name => do
          match ← d.take? (← longMeaning? name) with
          | .more next => next.parse? args
          | .decided i => return i
      | .letters c cs => do
          match ← d.takeLetters? (c :: cs) with
          | .more next => next.parse? args
          | .decided i => return i

end Draft

/- What the arguments ask for; nothing if they make no sense. -/
def Invocation.parse?
    (args : List String) : Option Invocation :=
  Draft.empty.parse? args

end MultiTape.CommandLine
