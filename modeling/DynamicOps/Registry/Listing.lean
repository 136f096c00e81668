import DynamicOps.Registry.Kind
import DynamicOps.Text.Padding

/-!
The listing of the kind registry, one line per kind with name, family, and payload type.
-/

namespace DynamicOps.Registry

/-- The line of one kind in the listing. -/
def line (k : Kind) : String :=
  "  " ++ Text.alignLeft 9 k.name ' ' ++ " " ++ Text.alignLeft 14 k.family.name ' ' ++ " "
    ++ k.payloadName ++ "\n"

/-- The registry as text: the number of kinds, then one line per kind. -/
def listing : String :=
  "Kinds (" ++ toString all.length ++ "):\n" ++ String.join (all.map line)

end DynamicOps.Registry
