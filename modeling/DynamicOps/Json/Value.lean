import DynamicOps.Json.Number
import DynamicOps.Time.Timestamp
import DynamicOps.Value.Basic

/-!
Values as JSON. References are written as their targets and nil references as null, homogeneous
sequences as arrays, instants and durations as texts, and extensions as their integer or as the
name of their type.
-/

namespace DynamicOps

open Json (Tree)

/-- The document of a scalar. -/
def Scalar.tree : Scalar → Tree
  | ⟨.int _, w⟩ => .integer w.val
  | ⟨.float p, x⟩ => Json.number p x
  | ⟨.text, s⟩ => .string s
  | ⟨.bool, b⟩ => .bool b
  | ⟨.instant, t⟩ => .string (String.ofList (Timestamp.render t))
  | ⟨.duration, d⟩ => .string d.text

namespace Value

variable {ε : Type} [Extension ε]

mutual

/-- The document of a value. -/
def tree : Value ε → Tree
  | nil => .null
  | scalar s => s.tree
  | array a => .array (a.toScalars.map Scalar.tree)
  | list items => .array (treeItems items)
  | record fields => .object (treeFields fields)
  | ref (.nil _) => .null
  | ref (.present s) => s.tree
  | extension x =>
    match Extension.integer? x with
    | some view => .integer view.val
    | none => .string (Extension.typeName x)

/-- The documents of the items of a list. -/
def treeItems : List (Value ε) → List Tree
  | [] => []
  | item :: items => tree item :: treeItems items

/-- The documents of the fields of a record under their names. -/
def treeFields : List (String × Value ε) → List (String × Tree)
  | [] => []
  | (name, item) :: fields => (name, tree item) :: treeFields fields

end

/-- The JSON text of a value. -/
def json (v : Value ε) : String :=
  String.ofList v.tree.render

/-- The type name and the JSON text of a value, as results are printed. -/
def display (v : Value ε) : String :=
  v.typeName ++ " " ++ v.json

end Value

end DynamicOps
