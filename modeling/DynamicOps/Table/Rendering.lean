import DynamicOps.Table.Basic

/-!
The text of a table as nested matches on the left and the right operand. The left payload is
bound to `x` and the right one to `y`; a case on a reference first matches the reference and then
its target.
-/

namespace DynamicOps

/-- A line of generated text with its indentation level. -/
structure Line where
  level : Nat
  text : String
deriving DecidableEq

/-- The line with four spaces for each level, ended by a line feed. -/
def Line.render (line : Line) : String :=
  String.ofList (List.replicate (4 * line.level) ' ') ++ line.text ++ "\n"

namespace Rendering

/-- The match pattern of one side; a reference has none of its own. -/
def pattern (bind : String) : Pattern → Option String
  | .scalar k => some ("Value::" ++ k.variant ++ "(" ++ bind ++ ")")
  | .array .any => some ("Value::List(" ++ bind ++ ")")
  | .array (.of k) => some ("Value::Array(Array::" ++ k.variant ++ "(" ++ bind ++ "))")
  | .refTo _ => none

/-- The conversion of a bound payload into a domain; durations become signed nanoseconds. -/
def convert (kind domain : Kind) (bind : String) : String :=
  if kind = .duration then
    if domain = .f64 then "(nanos(" ++ bind ++ ") as f64)" else "nanos(" ++ bind ++ ")"
  else if domain = .duration then "(*" ++ bind ++ " as i64)"
  else "(*" ++ bind ++ " as " ++ domain.payloadName ++ ")"

/-- The wrapping method of an operator on integers. -/
def wrappingMethod : Arithmetic → Option String
  | .add => some "wrapping_add"
  | .subtract => some "wrapping_sub"
  | .multiply => some "wrapping_mul"
  | .divide | .modulo => none

/-- Arithmetic on two converted operands, where the domain has the operator. -/
def arithmetic (op : Arithmetic) (domain : Kind) (x y : String) : Option String :=
  if domain = .i64 then
    if op = .modulo then some ("Some(remainder(" ++ x ++ ", " ++ y ++ "))")
    else (wrappingMethod op).map fun method =>
      "Some(Ok(Value::I64(" ++ x ++ "." ++ method ++ "(" ++ y ++ "))))"
  else if domain = .f64 then
    if op = .modulo then none
    else some ("Some(Ok(Value::F64(" ++ x ++ " " ++ (Operator.compute op).symbol ++ " " ++ y
      ++ ")))")
  else if domain = .duration then
    (wrappingMethod op).map fun method =>
      "Some(Ok(Value::Duration(TimeDelta::nanoseconds(" ++ x ++ "." ++ method ++ "(" ++ y
        ++ ")))))"
  else none

/-- A call whose absent result means that an operator left the range of a time type. -/
def rangeChecked (op : Operator) (call variant : String) : String :=
  "Some(" ++ call ++ ".map(Value::" ++ variant ++ ").ok_or(OpError::Overflow(Op::"
    ++ op.variant ++ ")))"

/-- The expression of a body between two patterns, where it has one. -/
def body (op : Operator) (lhs rhs : Pattern) : Body → Option String
  | .native => if op.isComparison then some ("Some(x " ++ op.symbol ++ " y)") else none
  | .promote domain =>
    match lhs, rhs with
    | .scalar a, .scalar b =>
      let x := convert a domain "x"
      let y := convert b domain "y"
      match op with
      | .compute operation => arithmetic operation domain x y
      | _ => some ("Some(" ++ x ++ " " ++ op.symbol ++ " " ++ y ++ ")")
    | _, _ => none
  | .concat => some "Some(Ok(Value::Text(format!(\"\x7bx\x7d\x7by\x7d\"))))"
  | .shift =>
    if lhs = .scalar .duration then
      some (rangeChecked op "y.checked_add_signed(*x)" "Instant")
    else if op = .compute .subtract then
      some (rangeChecked op "x.checked_sub_signed(*y)" "Instant")
    else some (rangeChecked op "x.checked_add_signed(*y)" "Instant")
  | .elapsed => some "Some(Ok(Value::Duration(x.signed_duration_since(*y))))"
  | .checked =>
    if op = .compute .subtract then some (rangeChecked op "x.checked_sub(y)" "Duration")
    else some (rangeChecked op "x.checked_add(y)" "Duration")
  | .elementwise =>
    match rhs with
    | .array (.of k) =>
      some ("Some(x.len() == y.len() && x.iter().zip(y.iter()).all(|(a, b)| equal(a, &Value::"
        ++ k.variant ++ "(b.clone()))))")
    | _ => none
  | .swapped => some "Some(equal(rhs, lhs))"

/-- The lines of a case: one line, or a block of four for a reference. -/
def case (op : Operator) (level : Nat) (lhs : Pattern) (c : Case) : Option (List Line) := do
  let expression ← body op lhs c.rhs c.body
  match c.rhs with
  | .refTo k =>
    some
      [ ⟨level, "Value::Ref(r) => match r.target() \x7b"⟩,
        ⟨level + 1, "Some(Value::" ++ k.variant ++ "(y)) => " ++ expression ++ ","⟩,
        ⟨level + 1, "_ => None,"⟩,
        ⟨level, "\x7d,"⟩ ]
  | rhs =>
    let inner ← pattern (if c.body = .swapped then "_" else "y") rhs
    some [⟨level, inner ++ " => " ++ expression ++ ","⟩]

/-- The lines of an arm: its opening line, its cases, and the closing lines. -/
def arm (op : Operator) (level : Nat) (a : Arm) : Option (List Line) := do
  let outer ← pattern "x" a.lhs
  let cases ← a.cases.mapM (case op (level + 1) a.lhs)
  some (⟨level, outer ++ " => match rhs \x7b"⟩ :: cases.flatten
    ++ [⟨level + 1, "_ => None,"⟩, ⟨level, "\x7d,"⟩])

end Rendering

/-- The lines of a table from an indentation level on, if every arm and case has a rendering. -/
def Table.lines? (t : Table) (indent : Nat) : Option (List Line) := do
  let arms ← t.arms.mapM (Rendering.arm t.op (indent + 1))
  some (⟨indent, "match lhs \x7b"⟩ :: arms.flatten
    ++ [⟨indent + 1, "_ => None,"⟩, ⟨indent, "\x7d"⟩])

/-- The text of a table from an indentation level on. -/
def Table.render? (t : Table) (indent : Nat) : Option String :=
  (t.lines? indent).map fun lines => String.join (lines.map Line.render)

end DynamicOps
