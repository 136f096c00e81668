import DynamicOps.CommandLine.Program

/-!
The program: it parses its arguments, carries out the plan of the command, and exits.
-/

namespace DynamicOps

/-- The text of a system error with its number. -/
def systemText (e : IO.Error) : String :=
  match e with
  | .noFileOrDirectory _ code details
  | .permissionDenied _ code details
  | .inappropriateType _ code details
  | .invalidArgument _ code details
  | .noSuchThing _ code details
  | .unsupportedOperation code details
  | .resourceBusy code details
  | .resourceExhausted _ code details => details ++ " (os error " ++ toString code ++ ")"
  | other => toString other

/-- Writes a file and gives the outcome of the attempt. -/
def writeFile (file content : String) : IO Outcome := do
  try
    IO.FS.writeFile file content
    return .success ""
  catch e =>
    return .writeFailure file (systemText e)

/-- Prints an outcome and gives its exit code. -/
def Outcome.report (o : Outcome) : IO UInt32 := do
  IO.eprint o.stderr
  IO.print o.stdout
  return o.code

/-- Runs the program on its arguments. -/
def run (arguments : List String) : IO UInt32 := do
  match Command.parse arguments with
  | .error e =>
    IO.eprintln ("error: " ++ e.message)
    return 2
  | .ok command =>
    match command.plan with
    | .finish outcome => outcome.report
    | .write file content => do (← writeFile file content).report

end DynamicOps

def main (arguments : List String) : IO UInt32 :=
  DynamicOps.run arguments
