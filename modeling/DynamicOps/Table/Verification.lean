import DynamicOps.Registry.Promotion
import DynamicOps.Table.Basic

/-!
Verification of tables against the promotion lattice. A table passes when it repeats no arm and
no case, when every case is one its operator supports, and when every required pair is present;
the obligations are stated here on their own and not through synthesis.
-/

namespace DynamicOps

/-- Why a table fails verification. -/
inductive TableError
  | duplicateArm (op : Operator) (lhs : Pattern)
  | duplicateCase (op : Operator) (lhs rhs : Pattern)
  | missingCase (op : Operator) (lhs rhs : Pattern)
  | forbiddenCase (op : Operator) (lhs rhs : Pattern)
  | inconsistent (op : Operator) (lhs rhs expected found : Kind)
deriving DecidableEq

/-- The text of a verification error. -/
def TableError.message : TableError → String
  | duplicateArm op lhs =>
    "`" ++ op.symbol ++ "` table has more than one arm for " ++ lhs.name
  | duplicateCase op lhs rhs =>
    "`" ++ op.symbol ++ "` table has more than one case for " ++ pair op lhs rhs
  | missingCase op lhs rhs =>
    "`" ++ op.symbol ++ "` table is missing the case for " ++ pair op lhs rhs
  | forbiddenCase op lhs rhs =>
    "`" ++ op.symbol ++ "` table defines " ++ pair op lhs rhs
      ++ ", which is not a supported pairing"
  | inconsistent op lhs rhs expected found =>
    lhs.name ++ " " ++ op.symbol ++ " " ++ rhs.name ++ " promotes to " ++ found.name
      ++ ", but the lattice requires " ++ expected.name
where
  pair (op : Operator) (lhs rhs : Pattern) : String :=
    lhs.name ++ " " ++ op.symbol ++ " " ++ rhs.name

/-- The operator is supported natively on two payloads of one kind. -/
def supportsNative (op : Operator) (k : Kind) : Bool :=
  match op with
  | .equal => true
  | .order _ => k ≠ .bool
  | .compute _ => false

/-- The case needs no promotion and its operator supports it. -/
def supported (op : Operator) : Pattern → Pattern → Body → Bool
  | .scalar a, .scalar b, .native => a = b && supportsNative op a
  | .scalar a, .refTo b, .native => a = b && op = .equal
  | .scalar .text, .scalar .text, .concat => op = .compute .add
  | .scalar .instant, .scalar .duration, .shift =>
    op = .compute .add || op = .compute .subtract
  | .scalar .duration, .scalar .instant, .shift => op = .compute .add
  | .scalar .instant, .scalar .instant, .elapsed => op = .compute .subtract
  | .scalar .duration, .scalar .duration, .checked =>
    op = .compute .add || op = .compute .subtract
  | .array .any, .array (.of _), .elementwise => op = .equal
  | .array (.of _), .array .any, .swapped => op = .equal
  | .array (.of a), .array (.of b), .native => a = b && op = .equal
  | _, _, _ => false

/-- Accepts a case, or refuses it as unsupported or as promoted to the wrong kind. -/
def checkCase (op : Operator) (lhs rhs : Pattern) (body : Body) : Except TableError Unit :=
  match lhs, rhs, body with
  | .scalar a, .scalar b, .promote found =>
    match promote op a b with
    | none => .error (.forbiddenCase op lhs rhs)
    | some expected =>
      if expected = found then .ok () else .error (.inconsistent op a b expected found)
  | _, _, _ => if supported op lhs rhs body then .ok () else .error (.forbiddenCase op lhs rhs)

/-- Every pair of patterns that the table of an operator must define. -/
def requiredPairs (op : Operator) : List (Pattern × Pattern) :=
  let kinds := op.pairwiseKinds
  let promoted : List (Pattern × Pattern) := kinds.flatMap fun a =>
    (kinds.filter fun b => (promote op a b).isSome).map fun b => (.scalar a, .scalar b)
  let comparable : List (Pattern × Pattern) := (kinds ++ Registry.distinguished).flatMap fun k =>
    [(.scalar k, .scalar k), (.scalar k, .refTo k)]
  let arrays : List (Pattern × Pattern) := Registry.all.flatMap fun k =>
    [(.array .any, .array (.of k)), (.array (.of k), .array .any),
      (.array (.of k), .array (.of k))]
  if op = .equal then promoted ++ comparable ++ arrays else promoted

/-- Checks entries in order and refuses one whose pattern occurred before; `seen` holds the
patterns before them.
-/
def checkDistinct {α : Type} (pattern : α → Pattern) (repeated : Pattern → TableError)
    (check : α → Except TableError Unit) (seen : List Pattern) : List α → Except TableError Unit
  | [] => .ok ()
  | entry :: entries =>
    if pattern entry ∈ seen then .error (repeated (pattern entry))
    else do
      check entry
      checkDistinct pattern repeated check (pattern entry :: seen) entries

/-- Checks the cases of an arm, which must have different right patterns. -/
def checkCases (op : Operator) (arm : Arm) : Except TableError Unit :=
  checkDistinct (·.rhs) (.duplicateCase op arm.lhs)
    (fun case => checkCase op arm.lhs case.rhs case.body) [] arm.cases

/-- Checks the arms of a table, which must have different left patterns. -/
def checkArms (op : Operator) (arms : List Arm) : Except TableError Unit :=
  checkDistinct (·.lhs) (.duplicateArm op) (checkCases op) [] arms

/-- Some arm of the table has a case for a pair of patterns. -/
def Table.defines (t : Table) (lhs rhs : Pattern) : Bool :=
  t.arms.any fun arm => arm.lhs = lhs && arm.cases.any (·.rhs = rhs)

/-- Checks the arms and cases in table order, then looks for the first missing pair. -/
def verify (t : Table) : Except TableError Unit := do
  checkArms t.op t.arms
  match (requiredPairs t.op).find? fun p => !t.defines p.1 p.2 with
  | some (lhs, rhs) => .error (.missingCase t.op lhs rhs)
  | none => .ok ()

end DynamicOps
