import DynamicOps.Operation.Trace
import DynamicOps.Registry.Operator

/-!
Command line arguments. After the name of a command, words and options stand in any order; after
two dashes everything is a word. Words are taken as they come and looked up as operators once a
word of another meaning, an option of the command, or the end settles them, so an option that the
command does not know is refused before the operators right before it. A missing word is noticed
last.
-/

namespace DynamicOps

/-- Why a command line is refused. -/
inductive UsageError
  /-- A word where an operator has to stand is none. -/
  | unknownOperator (word : String)
  /-- Anything else. -/
  | malformed
deriving DecidableEq

/-- The text of a refusal. -/
def UsageError.message : UsageError → String
  | unknownOperator word => "unknown operator `" ++ word ++ "`"
  | malformed => "malformed command line"

/-- What an argument looks like. -/
inductive Argument
  /-- Two dashes. -/
  | escape
  /-- Two dashes and a name, with a value after an equals sign. -/
  | long (name : String) (value : Option String)
  /-- A dash and at least one character. -/
  | short (characters : List Char)
  /-- Anything else, a lone dash included. -/
  | word
deriving DecidableEq

/-- The form of an argument. -/
def Argument.of (text : String) : Argument :=
  match text.toList with
  | ['-', '-'] => escape
  | '-' :: '-' :: cs =>
    let name := String.ofList (cs.takeWhile (· ≠ '='))
    match cs.dropWhile (· ≠ '=') with
    | [] => long name none
    | _ :: value => long name (some (String.ofList value))
  | '-' :: c :: cs => short (c :: cs)
  | _ => word

/-- The characters are a number: digits with at most one point, which is not first, and perhaps
an exponent of digits.
-/
def isNumber (cs : List Char) : Bool :=
  let isMark (c : Char) : Bool := c = 'e' || c = 'E'
  let wellFormed := match cs.takeWhile (!isMark ·) with
    | [] => false
    | c :: cs => c.isDigit && cs.all (fun d => d.isDigit || d = '.') && cs.count '.' ≤ 1
  wellFormed && match cs.dropWhile (!isMark ·) with
    | [] => true
    | _ :: exponent => !exponent.isEmpty && exponent.all Char.isDigit

/-- The argument is a number after a dash. -/
def Argument.isNegative : Argument → Bool
  | short cs => isNumber cs
  | _ => false

/-- The operator that a word names. -/
def operatorOfWord (word : String) : Except UsageError Operator :=
  match Operator.ofName? word with
  | some op => .ok op
  | none => .error (.unknownOperator word)

/-- The arguments of generating a module. -/
structure GenerateArguments where
  ops : List Operator
  bare : Bool
  header : Bool
  output : Option String

/-- The options of generating a module; a file may follow in the next argument. -/
inductive GenerateOption
  | bare
  | noHeader
  | output (file : Option String)
  | help
deriving DecidableEq

/-- The option of generating a module that an argument is, if the command has it. -/
def GenerateOption.of? : Argument → Option GenerateOption
  | .long "bare" none => some bare
  | .long "no-header" none => some noHeader
  | .long "output" file => some (output file)
  | .long "help" none => some help
  | .short ['o'] => some (output none)
  | .short ('o' :: '=' :: file) => some (output (some (String.ofList file)))
  | .short ('o' :: file) => some (output (some (String.ofList file)))
  | .short ('h' :: _) => some help
  | _ => none

namespace GenerateArguments

/-- No operators and no options. -/
def initial : GenerateArguments :=
  ⟨[], false, true, none⟩

/-- Adds the operators that words name. -/
def settle (a : GenerateArguments) (words : List String)
    : Except UsageError GenerateArguments := do
  let ops ← words.mapM operatorOfWord
  .ok { a with ops := a.ops ++ ops }

/-- Sets the output file, which needs a name and may be given once. -/
def setOutput (a : GenerateArguments) (file : String) : Except UsageError GenerateArguments :=
  if a.output.isSome || file = "" then .error .malformed
  else .ok { a with output := some file }

/-- Adds the arguments of a command line to those before them; `words` are not yet settled. -/
def read (a : GenerateArguments) (words : List String)
    : List String → Except UsageError GenerateArguments
  | [] => a.settle words
  | text :: rest =>
    match Argument.of text with
    | .escape => a.settle (words ++ rest)
    | .word => read a (words ++ [text]) rest
    | argument =>
      match GenerateOption.of? argument with
      | none => .error .malformed
      | some option => do
        let a ← a.settle words
        match option with
        | .bare => if a.bare then .error .malformed else read { a with bare := true } [] rest
        | .noHeader =>
          if a.header then read { a with header := false } [] rest else .error .malformed
        | .output (some file) => do read (← a.setOutput file) [] rest
        | .output none =>
          match rest with
          | [] => .error .malformed
          | file :: rest =>
            if Argument.of file = .word then do read (← a.setOutput file) [] rest
            else .error .malformed
        | .help => .error .malformed

/-- The operators to generate: the given ones, or all when none is given. -/
def operators (a : GenerateArguments) : List Operator :=
  if a.ops.isEmpty then Operator.all else a.ops

end GenerateArguments

/-- The arguments of evaluating an operator; no trace is shown without a verbosity. -/
structure EvaluateArguments where
  lhs : String
  op : Operator
  rhs : String
  trace : Option Verbosity

/-- The options of evaluating an operator; other letters may follow the one for verbosity. -/
inductive EvaluateOption
  | trace
  | verbose (letters : List Char)
  | help
deriving DecidableEq

/-- The option of evaluating an operator that an argument is, if the command has it. -/
def EvaluateOption.of? : Argument → Option EvaluateOption
  | .long "trace" none => some trace
  | .long "help" none => some help
  | .short ('v' :: letters) => some (verbose letters)
  | .short ('h' :: _) => some help
  | _ => none

/-- The words and options of an evaluation read so far. -/
structure EvaluateReading where
  words : List String
  trace : Bool
  verbose : Nat

namespace EvaluateReading

/-- No words and no options. -/
def initial : EvaluateReading :=
  ⟨[], false, 0⟩

/-- Looks up the second word, if there is one, as an operator. -/
def settle (a : EvaluateReading) : Except UsageError Unit :=
  match a.words with
  | _ :: word :: _ => (operatorOfWord word).map fun _ => ()
  | _ => .ok ()

/-- Takes one more of the three words; the third one settles the operator before it. -/
def addWord (a : EvaluateReading) (word : String) : Except UsageError EvaluateReading :=
  match a.words with
  | [] => .ok { a with words := [word] }
  | [lhs] => .ok { a with words := [lhs, word] }
  | [lhs, op] => do
    a.settle
    .ok { a with words := [lhs, op, word] }
  | _ => .error .malformed

/-- Adds the arguments of a command line to those before them; a negative number is a word. -/
def read (a : EvaluateReading) : List String → Except UsageError EvaluateReading
  | [] => .ok a
  | text :: rest =>
    match Argument.of text with
    | .escape => rest.foldlM addWord a
    | .word => do read (← a.addWord text) rest
    | argument =>
      if argument.isNegative then do
        read (← a.addWord text) rest
      else
        match EvaluateOption.of? argument with
        | none => .error .malformed
        | some option => do
          a.settle
          match option with
          | .trace => if a.trace then .error .malformed else read { a with trace := true } rest
          | .verbose letters =>
            if letters.all (· = 'v') then
              read { a with verbose := a.verbose + 1 + letters.length } rest
            else .error .malformed
          | .help => .error .malformed

/-- How much of the trace is shown; any degree of verbosity asks for a trace. -/
def verbosity (a : EvaluateReading) : Option Verbosity :=
  match a.verbose with
  | 0 => if a.trace then some .terse else none
  | 1 => some .verbose
  | _ => some .veryVerbose

/-- The complete arguments, if all three words are there and the second one is an operator. -/
def finish (a : EvaluateReading) : Except UsageError EvaluateArguments := do
  a.settle
  match a.words with
  | [lhs, word, rhs] =>
    let op ← operatorOfWord word
    .ok ⟨lhs, op, rhs, a.verbosity⟩
  | _ => .error .malformed

end EvaluateReading

/-- A command with its arguments. -/
inductive Command
  | generate (arguments : GenerateArguments)
  | evaluate (arguments : EvaluateArguments)
  | kinds

/-- The command that a command line asks for. -/
def Command.parse : List String → Except UsageError Command
  | "gen" :: rest => (GenerateArguments.initial.read [] rest).map generate
  | "eval" :: rest => do
    let reading ← EvaluateReading.initial.read rest
    reading.finish.map evaluate
  | ["kinds"] => .ok kinds
  | ["kinds", "--"] => .ok kinds
  | _ => .error .malformed

end DynamicOps
