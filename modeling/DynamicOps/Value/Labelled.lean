import DynamicOps.Value.Basic

/-!
A simple type of extensions: a type name, an identity, and possibly an integer. Two of them are
equal when they have the same name and identity and both have an integer or both have none.
-/

namespace DynamicOps

/-- An extension with a type name, an identity, and an optional integer view. -/
structure Labelled where
  name : String
  id : String
  view : Option IntegerView
deriving DecidableEq

instance : Extension Labelled where
  typeName x := x.name
  integer? x := x.view
  equals x y := x.view.isSome == y.view.isSome && x.name = y.name && x.id = y.id

end DynamicOps
