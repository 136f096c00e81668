import DynamicOps.CommandLine.Arguments
import DynamicOps.CommandLine.Directory
import DynamicOps.Literal.Evaluation
import DynamicOps.Registry.Listing
import DynamicOps.Table.Module

/-!
What the commands do: they print texts, and generating a module may write it to a file instead.
An outcome is an exit code with the texts for both output streams.
-/

namespace DynamicOps

/-- The end of a run: an exit code and what it printed. -/
structure Outcome where
  code : UInt32
  stdout : String
  stderr : String
deriving DecidableEq

namespace Outcome

/-- A successful run that printed a text. -/
def success (text : String) : Outcome :=
  ⟨0, text, ""⟩

/-- A failed run; the lines before the error go to the same stream. -/
def failure (lines : List String) (message : String) : Outcome :=
  ⟨1, "", String.join ((lines ++ ["error: " ++ message]).map (· ++ "\n"))⟩

/-- A run whose output file could not be written. -/
def writeFailure (file reason : String) : Outcome :=
  failure [] ("failed to write " ++ file ++ ": " ++ reason)

end Outcome

/-- What a command has to do: nothing more than printing, or writing a file. -/
inductive Plan
  | finish (outcome : Outcome)
  | write (file content : String)

/-- The end of a plan that is carried out in an empty directory, and the files it leaves there. -/
def Plan.carriedOut : Plan → Outcome × List (String × String)
  | finish outcome => (outcome, [])
  | write file content =>
    match Landing.ofPath file with
    | .error e => (.writeFailure file e.message, [])
    | .ok (.inside name) => (.success "", [(name, content)])
    | .ok .outside => (.success "", [])
    | .ok .output => (.success content, [])
    | .ok .errors => (⟨0, "", content⟩, [])

/-- The text of the generated module, or of the bare tables. -/
def generate (ops : List Operator) (bare header : Bool) : Except GenerationError String :=
  if bare then bareTables ops else ((ModuleConfig.standard.withHeader header).withOps ops).render

/-- Generates a module and prints it or plans to write it. -/
def GenerateArguments.plan (a : GenerateArguments) : Plan :=
  match generate a.operators a.bare a.header with
  | .error e => .finish (.failure [] e.message)
  | .ok text =>
    match a.output with
    | some file => .write file text
    | none => .finish (.success text)

/-- Literals never hold extensions, so the command line needs none. -/
instance : Extension Empty where
  typeName := Empty.elim
  integer? := Empty.elim
  equals := Empty.elim

/-- Evaluates an operator on literals and prints the trace, if one is wanted, and the result. -/
def EvaluateArguments.outcome (a : EvaluateArguments) : Outcome :=
  let session := Session.start (a.trace.getD .terse)
  let evaluated : Session × Except EvaluationError (Value Empty) :=
    session.evaluate a.lhs a.op a.rhs
  let shown := if a.trace.isSome then evaluated.1.lines else []
  match evaluated.2 with
  | .error e => .failure shown e.message
  | .ok value => ⟨0, value.display ++ "\n", String.join (shown.map (· ++ "\n"))⟩

/-- What a command has to do. -/
def Command.plan : Command → Plan
  | generate a => a.plan
  | evaluate a => .finish a.outcome
  | kinds => .finish (.success Registry.listing)

end DynamicOps
