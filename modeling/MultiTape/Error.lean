import MultiTape.Text.Literal
import MultiTape.Description.Fault
import MultiTape.Description.Finding

/-
  This file lists everything that can keep a machine from being
  loaded, built or run, with the words in which it is reported.

  Key definitions include:
    * `RulePart`
    * `FileFault`
    * `Error`
    * `Error.message`
-/

namespace MultiTape

------------------------------------------------------------
-- Causes
------------------------------------------------------------

/- The parts of a rule that have one entry for every tape. -/
inductive RulePart where
  | read
  | write
  | moves
  deriving DecidableEq, Repr

/- The name of a part in messages. -/
def RulePart.name : RulePart → String
  | read => "read"
  | write => "write"
  | moves => "directions"

/- Why the content of a file or directory cannot be had. -/
inductive FileFault where
  /- There is nothing at the path. -/
  | missing
  /- The path goes through a file, or names a file in the place of a directory. -/
  | notDirectory
  /- The path names a directory in the place of a file. -/
  | isDirectory
  /- A name in the path is too long. -/
  | nameTooLong
  /- The path holds a character that no path may hold. -/
  | nulInPath
  /- The content is no valid text. -/
  | encoding
  /- Anything else, in the words of the system. -/
  | other (text : String)
  deriving DecidableEq, Repr

/- The cause in the words of the system. -/
def FileFault.message : FileFault → String
  | missing => "No such file or directory (os error 2)"
  | notDirectory => "Not a directory (os error 20)"
  | isDirectory => "Is a directory (os error 21)"
  | nameTooLong => "File name too long (os error 36)"
  | nulInPath => "file name contained an unexpected NUL byte"
  | encoding => "stream did not contain valid UTF-8"
  | other text => text

------------------------------------------------------------
-- Errors
------------------------------------------------------------

/- Why an operation did not succeed. -/
inductive Error where
  /- No rule is bound to the key. -/
  | noTransition (key : Key)
  /- A part of a rule has not one entry for every tape. -/
  | malformedRule (state : State) (part : RulePart) (found expected : Nat)
  /- The key is bound to another action already. -/
  | conflictingRule (key : Key)
  /- A machine cannot have this number of tapes. -/
  | tapeCount (count : Nat)
  /- A run has used up its steps. -/
  | stepLimit (limit : Nat)
  /- The source is no description. -/
  | description (source : List Char) (fault : Fault)
  /- A finding that is not tolerated. -/
  | finding (finding : Finding)
  /- A file cannot be read. -/
  | file (path : String) (fault : FileFault)
  /- Standard input cannot be read. -/
  | standardInput (fault : FileFault)
  /- A directory cannot be listed. -/
  | directory (path : String) (fault : FileFault)
  /- There is no such directory. -/
  | missingDirectory (path : String)
  /- A file of a directory holds no description. -/
  | entry (path : String) (cause : Error)
  deriving DecidableEq, Repr

------------------------------------------------------------
-- Messages
------------------------------------------------------------

/- A rule with a wrong number of entries, in words. -/
def entriesMessage
    (state : State)
    (part : String)
    (found expected : Nat) : String :=
  s!"Malformed rule for state {state}: {part} has {found} entries, expected {expected}"

/- A finding in words. -/
def Finding.message
    (f : Finding) : String :=
  "Description validation error: " ++
    match f with
    | inconsistentArity state =>
        s!"Transition in state '{state}' has inconsistent tape counts"
    | undeclaredStart state => s!"Start state is not declared: {state}"
    | undeclaredAccept states =>
        "Accept states are not declared: " ++ Text.stringsLiteral states
    | undeclaredStates states =>
        "Transitions reference undeclared states: " ++ Text.stringsLiteral states
    | noStartRule state => s!"Start state {state} has no transitions"
    | unmatchedSymbols symbols =>
        "Symbols written by transitions are outside the wildcard alphabet: " ++
          Text.charsLiteral symbols

/- A fault in words, with the place in the source. -/
def Fault.message
    (source : List Char) : Fault → String
  | ungrammatical index expectation =>
      "Description parsing error: " ++
        (Text.Excerpt.atIndex source index).render expectation.message
  | unsuitable span problem =>
      "Description parsing error: " ++
        (Text.Excerpt.ofSpan source span).render problem.message
  | missingRecord record =>
      "Description validation error: Missing '" ++ record.name ++ "' record"
  | fieldCount state found expected => entriesMessage state "record" found expected

/- An error in words. -/
def Error.message : Error → String
  | noTransition key =>
      "Transition (" ++ key.state ++ ", " ++ Text.charsLiteral key.read ++ ") does not exist"
  | malformedRule state part found expected => entriesMessage state part.name found expected
  | conflictingRule key =>
      "Conflicting rule for state " ++ key.state ++ " and symbols " ++ Text.charsLiteral key.read
  | tapeCount count => s!"Invalid tape count: {count}"
  | stepLimit limit => s!"Step limit of {limit} exceeded"
  | description source fault => fault.message source
  | finding f => f.message
  | file path fault =>
      "File error: Failed to read file " ++ path ++ ": " ++ fault.message
  | standardInput fault =>
      "File error: Failed to read from stdin: " ++ fault.message
  | directory path fault =>
      "File error: Failed to read directory " ++ path ++ ": " ++ fault.message
  | missingDirectory path => s!"File error: Directory {path} does not exist"
  | entry path cause =>
      "File error: Failed to load description from " ++ path ++ ": " ++ cause.message

end MultiTape
