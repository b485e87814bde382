import MultiTape.CommandLine.Session
import MultiTape.Files.Load

/-
  This file is the program: it reads the description and writes
  what a session shows, step by step.
-/

namespace MultiTape.CommandLine

/- How the program is called. -/
def usage : String :=
  "Usage: ktape-cli [-q|--json] [--max-steps N] [--strict] [-v] DESCRIPTION"

/- The number of steps between two writings. -/
def chunk : Nat :=
  4096

/- A code of the system, which some calls give with its sign turned. -/
def plainCode
    (code : UInt32) : UInt32 :=
  if code < 2147483648 then code else 0 - code

/- The cause of a failure of the file system. -/
def faultOf
    (e : IO.Error) : FileFault :=
  match e with
  | .noFileOrDirectory _ _ _ => .missing
  | .inappropriateType _ code _ => if plainCode code = 20 then .notDirectory else .isDirectory
  | .invalidArgument _ code _ =>
      if plainCode code = 36 then .nameTooLong else .other (toString e)
  | e => .other (toString e)

/- The bytes of a file. -/
def readFile
    (path : String) : IO (Except FileFault ByteArray) := do
  try
    return .ok (← IO.FS.readBinFile path)
  catch e =>
    return .error (faultOf e)

/- Read bytes to the end. -/
partial def readToEnd
    (input : IO.FS.Stream)
    (bytes : ByteArray) : IO ByteArray := do
  let more ← input.read 65536
  if more.isEmpty then
    return bytes
  else
    readToEnd input (bytes ++ more)

/- Load the description that the options name. -/
def loadDescription
    (path : String) : IO (Except Error Description) := do
  if path = "-" then
    return Description.ofStandardInput (← readToEnd (← IO.getStdin) ByteArray.empty)
  else
    return Description.ofFile path (← readFile path)

/- Write lines to standard output. -/
def writeOut
    (lines : List String) : IO Unit := do
  IO.print (unlines lines)

/- Write lines to standard error. -/
def writeErr
    (lines : List String) : IO Unit := do
  IO.eprint (unlines lines)

/- Run a machine to its end. -/
partial def runToEnd
    (o : Options)
    (m : Machine) : IO UInt32 := do
  let r := m.run chunk
  writeOut (r.trace.flatMap fun e => o.output.entry e)
  match r.outcome with
  | none => runToEnd o r.machine
  | some outcome =>
      writeOut (o.verdictLines r.machine outcome)
      writeErr (o.log r.closingEvents ++ errorLines outcome)
      return (exitCode outcome).toUInt32

/- Do what the options ask for. -/
def simulate
    (o : Options) : IO UInt32 := do
  let b := o.prepare (← loadDescription o.description)
  writeErr (o.log b.events)
  match b.result with
  | .error e =>
      writeErr [errorLine e]
      return loadFailure.toUInt32
  | .ok m =>
      writeErr (o.log [.runStarted m.name m.input])
      writeOut (o.output.opening m)
      runToEnd o m

end MultiTape.CommandLine

open MultiTape.CommandLine in
/- Run the program. -/
def main
    (args : List String) : IO UInt32 := do
  match Invocation.parse? args with
  | none =>
      writeErr [usage]
      return usageFailure.toUInt32
  | some .help =>
      writeOut [usage]
      return 0
  | some .version =>
      writeOut versionSession.stdout
      return versionSession.exit.toUInt32
  | some (.simulate o) => simulate o
