import DynamicOps.Table.Basic

/-!
Single edits of a table: cases and arms are added, removed, copied, exchanged, or changed in
place. Positions count from zero, and an edit at a position that does not exist changes nothing.
-/

namespace DynamicOps

/-- One change of a table. -/
inductive Edit
  | push (lhs rhs : Pattern) (body : Body)
  | removeArm (arm : Nat)
  | copyArm (arm : Nat)
  | swapArms (arm other : Nat)
  | setLhs (arm : Nat) (lhs : Pattern)
  | setOperator (op : Operator)
  | removeCase (arm case : Nat)
  | copyCase (arm case : Nat)
  | setRhs (arm case : Nat) (rhs : Pattern)
  | setBody (arm case : Nat) (body : Body)

/-- A list with a copy of the element at a position at its end. -/
def appendCopy {α : Type} (xs : List α) (i : Nat) : List α :=
  xs ++ xs[i]?.toList

/-- A list with the elements at two positions exchanged. -/
def exchange {α : Type} (xs : List α) (i j : Nat) : List α :=
  match xs[i]?, xs[j]? with
  | some x, some y => (xs.set i y).set j x
  | _, _ => xs

/-- Changes the cases of one arm. -/
def Table.modifyCases (t : Table) (arm : Nat) (change : List Case → List Case) : Table :=
  ⟨t.op, t.arms.modify arm fun a => ⟨a.lhs, change a.cases⟩⟩

/-- The table after an edit. -/
def Edit.apply (t : Table) : Edit → Table
  | push lhs rhs body => t.push lhs rhs body
  | removeArm i => ⟨t.op, t.arms.eraseIdx i⟩
  | copyArm i => ⟨t.op, appendCopy t.arms i⟩
  | swapArms i j => ⟨t.op, exchange t.arms i j⟩
  | setLhs i lhs => ⟨t.op, t.arms.modify i fun a => ⟨lhs, a.cases⟩⟩
  | setOperator op => ⟨op, t.arms⟩
  | removeCase i j => t.modifyCases i (·.eraseIdx j)
  | copyCase i j => t.modifyCases i (appendCopy · j)
  | setRhs i j rhs => t.modifyCases i (·.modify j fun c => ⟨rhs, c.body⟩)
  | setBody i j body => t.modifyCases i (·.modify j fun c => ⟨c.rhs, body⟩)

end DynamicOps
