import DynamicOps.Registry.Operator

/-!
Operators by their names. There is one name for each operator, and only the name and the symbol of
an operator are read as that operator.
-/

namespace DynamicOps.Operator

theorem mem_all (op : Operator) : op ∈ all := by
  rcases op with _ | o | o
  · decide
  · cases o <;> decide
  · cases o <;> decide

theorem ofName?_name (op : Operator) : ofName? op.name = some op := by
  have h : ∀ op ∈ all, ofName? op.name = some op := by decide
  exact h op (mem_all op)

theorem name_injective : Function.Injective name := by
  intro op op' h
  exact Option.some_inj.mp ((ofName?_name op).symm.trans (h ▸ ofName?_name op'))

theorem eq_name_or_symbol_of_ofName? {text : String} {op : Operator} (h : ofName? text = some op)
    : text = op.name ∨ text = op.symbol := by
  have hfound := List.find?_some h
  simp only [Bool.or_eq_true, decide_eq_true_eq] at hfound
  exact hfound.imp Eq.symm Eq.symm

end DynamicOps.Operator
