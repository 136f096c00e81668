import DynamicOps.Table.Rendering
import DynamicOps.Table.Synthesis
import DynamicOps.Table.Verification

/-!
Generated modules: the verified case tables of some operators, each in a function of its own,
after a header and the imports that every table relies on.
-/

namespace DynamicOps

/-- Why no text is generated for an operator. -/
inductive GenerationError
  | refused (reason : TableError)
  | unrenderable (op : Operator)
deriving DecidableEq

/-- The text of a generation error. -/
def GenerationError.message : GenerationError → String
  | refused reason => reason.message
  | unrenderable op => "`" ++ op.symbol ++ "` table has a case without a rendering"

/-- The case table of an operator, verified and indented by one level. -/
def caseText (op : Operator) : Except GenerationError String :=
  match verify (synthesize op) with
  | .error reason => .error (.refused reason)
  | .ok () =>
    match (synthesize op).render? 1 with
    | some text => .ok text
    | none => .error (.unrenderable op)

/-- The elements of a list without those that occurred before. -/
def firstOccurrences {α : Type} [DecidableEq α] : List α → List α
  | [] => []
  | x :: xs => x :: (firstOccurrences xs).filter (· ≠ x)

/-- Which operators a generated module holds, and whether it opens with the header. -/
structure ModuleConfig where
  header : Bool
  ops : List Operator

namespace ModuleConfig

/-- Every operator, with the header. -/
def standard : ModuleConfig :=
  ⟨true, Operator.all⟩

/-- Replaces the operators; of a repeated operator the first occurrence stays. -/
def withOps (config : ModuleConfig) (ops : List Operator) : ModuleConfig :=
  ⟨config.header, firstOccurrences ops⟩

/-- Chooses whether the module opens with the header. -/
def withHeader (config : ModuleConfig) (header : Bool) : ModuleConfig :=
  ⟨header, config.ops⟩

end ModuleConfig

/-- The comment that marks a module as generated. -/
def moduleHeader : String :=
  "// @generated by dynval-synth. Do not edit.\n\n"

/-- The imports that the generated functions refer to. -/
def modulePrelude : String :=
  "use chrono::TimeDelta;\nuse dynval_core::Op;\n\n"
    ++ "use crate::engine::convert::\x7bnanos, remainder\x7d;\n"
    ++ "use crate::engine::\x7bArray, OpError, Value, equal\x7d;\n"

/-- The result type of a generated function, without the outer option. -/
def resultType (op : Operator) : String :=
  if op.isComparison then "bool" else "Result<Value, OpError>"

/-- The generated function of an operator around its case table. -/
def caseFunction (op : Operator) (cases : String) : String :=
  "\npub(crate) fn " ++ op.name ++ "_cases(lhs: &Value, rhs: &Value) -> Option<"
    ++ resultType op ++ "> \x7b\n" ++ cases ++ "\x7d\n"

/-- The module of a configuration: header, imports, and one function per operator. -/
def ModuleConfig.render (config : ModuleConfig) : Except GenerationError String := do
  let functions ← config.ops.mapM fun op => (caseText op).map (caseFunction op)
  .ok ((if config.header then moduleHeader else "") ++ modulePrelude ++ String.join functions)

/-- The case tables alone, each under a comment with its operator's name. -/
def bareTables (ops : List Operator) : Except GenerationError String := do
  let tables ← ops.mapM fun op => (caseText op).map fun text => "// " ++ op.name ++ "\n" ++ text
  .ok (String.intercalate "\n" tables)

end DynamicOps
