import DynamicOps.CommandLine.Hierarchy

/-!
Where a file lands that is written from an empty directory. A name in the directory itself can be
written; a path through a directory that is not there cannot, and neither can a directory.
-/

namespace DynamicOps

/-- Where a written text lands. -/
inductive Landing
  /-- In a file of the empty directory. -/
  | inside (name : String)
  /-- In a file elsewhere, or nowhere. -/
  | outside
  /-- Among what the program prints. -/
  | output
  /-- Among the errors that the program prints. -/
  | errors
deriving DecidableEq

/-- The parts of a path between its slashes. -/
def pathParts (cs : List Char) : List (List Char) :=
  match cs with
  | [] => [[]]
  | c :: cs =>
    if c = '/' then [] :: pathParts cs
    else
      match pathParts cs with
      | [] => [[c]]
      | part :: parts => (c :: part) :: parts

/-- Where a text lands that is written to a device. -/
def Device.landing : Device → Except WriteError Landing
  | sink => .ok .outside
  | full => .error .storageFull
  | terminal => .error .missingDevice
  | output => .ok .output
  | errors => .ok .errors

/-- Where a new file of a directory lands. -/
def Creation.landing (name : String) : Creation → Except WriteError Landing
  | kept => .ok (.inside name)
  | elsewhere => .ok .outside
  | refused reason => .error reason

namespace Landing

/-- Follows the parts of a path from a directory with the given ones above it, the nearest first.
A last part with a slash after it asks for a directory, whatever it names.
-/
def ofParts (here : Directory) (above : List Directory)
    : List (List Char) → Except WriteError Landing
  | [] => .error .isDirectory
  | part :: parts =>
    let name := String.ofList part
    if part = [] || part = ['.'] then ofParts here above parts
    else if part = ['.', '.'] then
      match above with
      | [] => ofParts here [] parts
      | parent :: above => ofParts parent above parts
    else if !parts.isEmpty && parts.all (· = []) then .error .isDirectory
    else if 255 < name.utf8ByteSize then .error .nameTooLong
    else
      match here.find? name with
      | some (.directory creation entries) => ofParts ⟨creation, entries⟩ (here :: above) parts
      | some (.device device) => if parts.isEmpty then device.landing else .error .notDirectory
      | none => if parts.isEmpty then here.creation.landing name else .error .missingDirectory

/-- Where the file of a path lands; a path with a leading slash starts at the root. -/
def ofPath (path : String) : Except WriteError Landing :=
  if path = "" then .error .missingDirectory
  else if 4096 ≤ path.utf8ByteSize then .error .nameTooLong
  else
    match pathParts path.toList with
    | [] :: parts => ofParts .root [] parts
    | parts => ofParts .working [.temporary, .root] parts

end Landing

end DynamicOps
