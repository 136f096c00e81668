import DynamicOps.Operation.Body
import DynamicOps.Proofs.Table.Lookup

/-!
Selecting cases by values. A value has at most one pattern, so the case that a table selects for
two values is the one it has for their patterns, and the prepared tables are the synthesized ones.
-/

namespace DynamicOps

variable {ε : Type}

/-- The pattern of a value's shape; nil, records, nil references, and extensions have none. -/
def Value.pattern? : Value ε → Option Pattern
  | scalar s => some (.scalar s.kind)
  | ref (.present s) => some (.refTo s.kind)
  | list _ => some (.array .any)
  | array a => some (.array (.of a.kind))
  | _ => none

/-- A value's pattern is the only one that accepts it, by cases on both shapes. -/
theorem Pattern.accepts_eq (p : Pattern) (v : Value ε)
    : p.accepts v = decide (v.pattern? = some p) := by
  cases v with
  | nil | record _ | extension _ => cases p <;> simp [Value.pattern?, accepts]
  | scalar s => cases p <;> simp [Value.pattern?, accepts]
  | array a | list items =>
      rcases p with _ | _ | (_ | _) <;> simp [Value.pattern?, accepts]
  | ref r => cases r <;> cases p <;> simp [Value.pattern?, accepts]

/-- The body that a table selects for two values is its body for their patterns. -/
theorem Table.select?_eq (t : Table) (lhs rhs : Value ε)
    : t.select? lhs rhs
      = lhs.pattern?.bind fun p => rhs.pattern?.bind fun q => t.get? p q := by
  simp only [Table.select?, Pattern.accepts_eq]
  cases lhs.pattern? with
  | none =>
      have hnone : t.arms.find? (fun _ => false) = none := List.find?_eq_none.mpr (by simp)
      simp [hnone]
  | some p =>
      cases rhs.pattern? with
      | none => simp
      | some q => simp [Table.get?, eq_comm]

/-- A table built from cells keeps the operator it was built for. -/
theorem Table.op_ofCells (op : Operator) (cells : List Cell)
    : (Table.ofCells op cells).op = op := by
  suffices ∀ t : Table, (cells.foldl (fun t c => t.push c.lhs c.rhs c.body) t).op = t.op from
    this (.empty op)
  induction cells with
  | nil => exact fun _ => rfl
  | cons c cells ih => exact fun t => ih _

/-- The prepared table of an operator is its synthesized table. -/
theorem Operator.table_eq (op : Operator) : op.table = synthesize op := by
  have hop (o : Operator) : (synthesize o).op = o := Table.op_ofCells o _
  rcases op with _ | (_ | _ | _ | _) | (_ | _ | _ | _ | _) <;>
    simp [Operator.table, tables, Operator.all, hop]

end DynamicOps
