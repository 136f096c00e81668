import DynamicOps.Proofs.Rendering.Layout

/-!
The syntax of generated code: expressions over the operands of an operator and what was bound of
them, and nested matches, which give nothing where no arm fits. Every body has an expression and
every table has code, in parallel to the rendering of their texts.
-/

namespace DynamicOps.Generated

/-- The names in generated code: the operands, and what matches bind of them. -/
inductive Name
  | lhs
  | rhs
  | x
  | y
  | r
deriving DecidableEq

def Name.text : Name → String
  | lhs => "lhs"
  | rhs => "rhs"
  | x => "x"
  | y => "y"
  | r => "r"

/-- What generated code does with one expression. -/
inductive UnaryForm
  | deref
  | cast (k : Kind)
  | nanos
  | nanoseconds
  | value (k : Kind)
  | done
  | present
  | mapValue (k : Kind)
  | orOverflow (op : Operator)
  | target

/-- The pieces of the text around an expression. -/
def UnaryForm.pieces (e : String) : UnaryForm → List String
  | deref => ["*", e]
  | cast k => ["(", e, " as ", k.payloadName, ")"]
  | nanos => ["nanos(", e, ")"]
  | nanoseconds => ["TimeDelta::nanoseconds(", e, ")"]
  | value k => ["Value::", k.variant, "(", e, ")"]
  | done => ["Ok(", e, ")"]
  | present => ["Some(", e, ")"]
  | mapValue k => [e, ".map(Value::", k.variant, ")"]
  | orOverflow op => [e, ".ok_or(OpError::Overflow(Op::", op.variant, "))"]
  | target => [e, ".target()"]

/-- The methods that generated code calls with one argument. -/
inductive Method
  | wrappingAdd
  | wrappingSub
  | wrappingMul
  | checkedAdd
  | checkedSub
  | checkedAddSigned
  | checkedSubSigned
  | signedDurationSince

def Method.name : Method → String
  | wrappingAdd => "wrapping_add"
  | wrappingSub => "wrapping_sub"
  | wrappingMul => "wrapping_mul"
  | checkedAdd => "checked_add"
  | checkedSub => "checked_sub"
  | checkedAddSigned => "checked_add_signed"
  | checkedSubSigned => "checked_sub_signed"
  | signedDurationSince => "signed_duration_since"

/-- What generated code does with two expressions. -/
inductive BinaryForm
  | operator (op : Operator)
  | call (method : Method)
  | remainder
  | format
  | equal
  | both
  | sameLength
  | allEqual (k : Kind)

/-- The pieces of the text around two expressions. -/
def BinaryForm.pieces (e f : String) : BinaryForm → List String
  | operator op => [e, " ", op.symbol, " ", f]
  | call method => [e, ".", method.name, "(", f, ")"]
  | remainder => ["remainder(", e, ", ", f, ")"]
  | format => ["format!(\"\x7b", e, "\x7d\x7b", f, "\x7d\")"]
  | equal => ["equal(", e, ", ", f, ")"]
  | both => [e, " && ", f]
  | sameLength => [e, ".len() == ", f, ".len()"]
  | allEqual k =>
    [e, ".iter().zip(", f, ".iter()).all(|(a, b)| equal(a, &Value::", k.variant,
      "(b.clone())))"]

/-- The expressions of generated code. -/
inductive Expression
  | name (n : Name)
  | unary (form : UnaryForm) (e : Expression)
  | binary (form : BinaryForm) (e f : Expression)

/-- The text of an expression. -/
def Expression.text : Expression → String
  | name n => n.text
  | unary form e => String.join (form.pieces e.text)
  | binary form e f => String.join (form.pieces e.text f.text)

open Expression

/-- The conversion of what a name is bound to into a domain. -/
def converted (k domain : Kind) (n : Name) : Expression :=
  if k = .duration then
    if domain = .f64 then unary (.cast .f64) (unary .nanos (name n)) else unary .nanos (name n)
  else if domain = .duration then unary (.cast .i64) (unary .deref (name n))
  else unary (.cast domain) (unary .deref (name n))

/-- The wrapping method of an operator on integers. -/
def wrapping? : Arithmetic → Option Method
  | .add => some .wrappingAdd
  | .subtract => some .wrappingSub
  | .multiply => some .wrappingMul
  | .divide | .modulo => none

/-- Arithmetic on two converted operands, where the domain has the operator. -/
def arithmetic? (op : Arithmetic) (domain : Kind) (x y : Expression) : Option Expression :=
  if domain = .i64 then
    if op = .modulo then some (unary .present (binary .remainder x y))
    else (wrapping? op).map fun method =>
      unary .present (unary .done (unary (.value .i64) (binary (.call method) x y)))
  else if domain = .f64 then
    if op = .modulo then none
    else some (unary .present
      (unary .done (unary (.value .f64) (binary (.operator (.compute op)) x y))))
  else if domain = .duration then
    (wrapping? op).map fun method =>
      unary .present (unary .done (unary (.value .duration)
        (unary .nanoseconds (binary (.call method) x y))))
  else none

/-- A checked call, where an absent result means an overflow of the operator. -/
def rangeChecked (op : Operator) (k : Kind) (call : Expression) : Expression :=
  unary .present (unary (.orOverflow op) (unary (.mapValue k) call))

/-- The expression of a body between two patterns, where it has one. -/
def expression? (op : Operator) (lhs rhs : Pattern) : Body → Option Expression
  | .native =>
    if op.isComparison then some (unary .present (binary (.operator op) (name .x) (name .y)))
    else none
  | .promote domain =>
    match lhs, rhs with
    | .scalar a, .scalar b =>
      let x := converted a domain .x
      let y := converted b domain .y
      match op with
      | .compute operation => arithmetic? operation domain x y
      | _ => some (unary .present (binary (.operator op) x y))
    | _, _ => none
  | .concat =>
    some (unary .present
      (unary .done (unary (.value .text) (binary .format (name .x) (name .y)))))
  | .shift =>
    if lhs = .scalar .duration then
      some (rangeChecked op .instant
        (binary (.call .checkedAddSigned) (name .y) (unary .deref (name .x))))
    else if op = .compute .subtract then
      some (rangeChecked op .instant
        (binary (.call .checkedSubSigned) (name .x) (unary .deref (name .y))))
    else
      some (rangeChecked op .instant
        (binary (.call .checkedAddSigned) (name .x) (unary .deref (name .y))))
  | .elapsed =>
    some (unary .present (unary .done (unary (.value .duration)
      (binary (.call .signedDurationSince) (name .x) (unary .deref (name .y))))))
  | .checked =>
    if op = .compute .subtract then
      some (rangeChecked op .duration (binary (.call .checkedSub) (name .x) (name .y)))
    else some (rangeChecked op .duration (binary (.call .checkedAdd) (name .x) (name .y)))
  | .elementwise =>
    match rhs with
    | .array (.of k) =>
      some (unary .present (binary .both (binary .sameLength (name .x) (name .y))
        (binary (.allEqual k) (name .x) (name .y))))
    | _ => none
  | .swapped => some (unary .present (binary .equal (name .rhs) (name .lhs)))

/-- What a match can expect of an object. -/
inductive Shape
  | value (k : Kind)
  | list
  | array (k : Kind)
  | ref
  | present (k : Kind)

/-- The pieces of a pattern around what it binds. -/
def Shape.pieces (bind : String) : Shape → List String
  | value k => ["Value::", k.variant, "(", bind, ")"]
  | list => ["Value::List(", bind, ")"]
  | array k => ["Value::Array(Array::", k.variant, "(", bind, "))"]
  | ref => ["Value::Ref(", bind, ")"]
  | present k => ["Some(Value::", k.variant, "(", bind, "))"]

/-- What stands before the code of an arm: its pattern, which binds a name or nothing. -/
def Shape.opening (shape : Shape) (bind : Option Name) : String :=
  String.join (shape.pieces ((bind.map Name.text).getD "_")) ++ " => "

/-- Generated code: an expression, or a match on an expression with the code of its arms. -/
inductive Code
  | answer (e : Expression)
  | select (scrutinee : Expression) (arms : List (Shape × Option Name × Code))

/-- An arm of a match: its shape, the name that it binds, and its code. -/
abbrev MatchArm : Type :=
  Shape × Option Name × Code

mutual

/-- The lines of code at a level, with what stands before and after it. -/
def Code.lines (level : Nat) (opening closing : String) : Code → List Line
  | .answer e => [⟨level, opening ++ e.text ++ closing⟩]
  | .select scrutinee arms =>
    Rendering.matchLines level (opening ++ "match " ++ scrutinee.text ++ " \x7b")
      ("\x7d" ++ closing) (armLines (level + 1) arms)

/-- The lines of the arms of a match. -/
def armLines (level : Nat) : List MatchArm → List Line
  | [] => []
  | (shape, bind, code) :: arms =>
    code.lines level (shape.opening bind) "," ++ armLines level arms

end

/-- The shape of a pattern that looks at one object only. -/
def shape? : Pattern → Option Shape
  | .scalar k => some (.value k)
  | .array .any => some .list
  | .array (.of k) => some (.array k)
  | .refTo _ => none

/-- The arm of a case; for a reference its target is matched in turn. -/
def caseArm? (op : Operator) (lhs : Pattern) (c : Case) : Option MatchArm := do
  let e ← expression? op lhs c.rhs c.body
  match c.rhs with
  | .refTo k =>
    some (.ref, some .r,
      .select (unary .target (name .r)) [(.present k, some .y, .answer e)])
  | rhs =>
    let shape ← shape? rhs
    some (shape, if c.body = .swapped then none else some .y, .answer e)

/-- The arm of a table's arm, which matches the right operand. -/
def arm? (op : Operator) (a : Arm) : Option MatchArm := do
  let shape ← shape? a.lhs
  let arms ← a.cases.mapM (caseArm? op a.lhs)
  some (shape, some .x, .select (name .rhs) arms)

end Generated

/-- The code of a table, if every arm and case has code. -/
def Table.code? (t : Table) : Option Generated.Code := do
  let arms ← t.arms.mapM (Generated.arm? t.op)
  some (.select (.name .lhs) arms)

end DynamicOps
