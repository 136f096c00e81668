import DynamicOps.Operation.Error
import DynamicOps.Table.Synthesis
import DynamicOps.Value.Basic

/-!
What the bodies of case tables compute on scalars: comparisons within a kind or in a promoted
domain, and the arithmetic of numbers, texts, instants, and durations. A body gives nothing on
operands that it is not meant for.
-/

namespace DynamicOps

/-- The synthesized tables of all operators. -/
def tables : List Table :=
  Operator.all.map synthesize

/-- The synthesized table of an operator, from the prepared ones. -/
def Operator.table (op : Operator) : Table :=
  (tables.find? (·.op = op)).getD (synthesize op)

/-- Relates two scalars after converting both to a domain. -/
def Scalar.relatedIn? (rel : PayloadRelation) (domain : Kind) (s t : Scalar) : Option Bool :=
  match domain with
  | .int (.signed .w64) | .duration => do some (rel .i64 (← s.toWord?) (← t.toWord?))
  | .float .double => do some (rel .f64 (← s.toBinary?) (← t.toBinary?))
  | _ => none

/-- Relates two scalars as a body demands. -/
def Body.relate? (rel : PayloadRelation) (body : Body) (s t : Scalar) : Option Bool :=
  match body with
  | .native => s.related? rel t
  | .promote domain => s.relatedIn? rel domain t
  | _ => none

namespace Arithmetic

/-- An operator on words; there is no integer division. -/
def onWords? (op : Arithmetic) (x y : Word64) : Option (Except OpError Word64) :=
  match op with
  | add => some (.ok (x.add y))
  | subtract => some (.ok (x.subtract y))
  | multiply => some (.ok (x.multiply y))
  | divide => none
  | modulo =>
    match x.remainder? y with
    | some r => some (.ok r)
    | none => some (.error .divisionByZero)

/-- An operator on double precision numbers; there is no floating remainder. -/
def onBinaries? (op : Arithmetic) (x y : Binary64) : Option Binary64 :=
  match op with
  | add => some (x.add y)
  | subtract => some (x.subtract y)
  | multiply => some (x.multiply y)
  | divide => some (x.divide y)
  | modulo => none

/-- An operator on two scalars converted to a domain; nanoseconds become durations again. -/
def promoted? (op : Arithmetic) (domain : Kind) (s t : Scalar)
    : Option (Except OpError Scalar) :=
  match domain with
  | .int (.signed .w64) => do
    let r ← op.onWords? (← s.toWord?) (← t.toWord?)
    some (r.map .ofWord)
  | .duration => do
    let r ← op.onWords? (← s.toWord?) (← t.toWord?)
    if op = .modulo then none else some (r.map fun w => ⟨.duration, .ofWord w⟩)
  | .float .double => do
    let r ← op.onBinaries? (← s.toBinary?) (← t.toBinary?)
    some (.ok (.ofBinary r))
  | _ => none

/-- The result of time arithmetic, or the overflow of its operator. -/
def orOverflow (op : Arithmetic) (k : Kind) : Option k.Payload → Except OpError Scalar
  | some x => .ok ⟨k, x⟩
  | none => .error (.overflow (.compute op))

/-- An instant moved by a duration on either side; subtraction moves it back. -/
def shift? (op : Arithmetic) : Scalar → Scalar → Option (Except OpError Scalar)
  | ⟨.instant, t⟩, ⟨.duration, d⟩ =>
    some (op.orOverflow .instant (if op = .subtract then t.subtract? d else t.add? d))
  | ⟨.duration, d⟩, ⟨.instant, t⟩ => some (op.orOverflow .instant (t.add? d))
  | _, _ => none

/-- The sum or difference of two durations. -/
def checked? (op : Arithmetic) : Scalar → Scalar → Option (Except OpError Scalar)
  | ⟨.duration, d⟩, ⟨.duration, e⟩ =>
    some (op.orOverflow .duration (if op = .subtract then d.subtract? e else d.add? e))
  | _, _ => none

/-- The duration between two instants. -/
def elapsed? : Scalar → Scalar → Option (Except OpError Scalar)
  | ⟨.instant, t⟩, ⟨.instant, u⟩ => some (.ok ⟨.duration, t.elapsed u⟩)
  | _, _ => none

/-- One text after the other. -/
def concat? : Scalar → Scalar → Option (Except OpError Scalar)
  | ⟨.text, s⟩, ⟨.text, t⟩ => some (.ok ⟨.text, s ++ t⟩)
  | _, _ => none

end Arithmetic

/-- Computes with two scalars as a body demands. -/
def Body.compute? (op : Arithmetic) (body : Body) (s t : Scalar)
    : Option (Except OpError Scalar) :=
  match body with
  | .promote domain => op.promoted? domain s t
  | .concat => Arithmetic.concat? s t
  | .shift => op.shift? s t
  | .elapsed => Arithmetic.elapsed? s t
  | .checked => op.checked? s t
  | .native | .elementwise | .swapped => none

end DynamicOps
