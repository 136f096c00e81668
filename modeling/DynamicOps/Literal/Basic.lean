import DynamicOps.Literal.Duration
import DynamicOps.Number.DecimalReading
import DynamicOps.Time.Timestamp
import DynamicOps.Value.Basic

/-!
Typed literals. A literal is a kind and its text around a colon, a reference to such a literal
after an ampersand, or one of nil, a truth value, an integer, and a decimal number without a kind.
-/

namespace DynamicOps

/-- Why a text is no literal. -/
inductive LiteralError
  /-- The text before the colon names no kind. -/
  | unknownKind (name : String)
  /-- The text after the colon is no payload of the kind. -/
  | invalid (kind : Kind) (text : String)
  /-- The text has none of the forms of a literal. -/
  | unrecognized (text : String)
deriving DecidableEq

/-- The text of a literal error. -/
def LiteralError.message : LiteralError → String
  | unknownKind name => "unknown kind `" ++ name ++ "`"
  | invalid kind text => "invalid " ++ kind.name ++ " literal `" ++ text ++ "`"
  | unrecognized text =>
    "unrecognized literal `" ++ text
      ++ "` (expected <kind>:<value>, a number, true, false, or nil)"

/-- The integer of a kind that a text stands for; only signed kinds take a minus sign. -/
def Word.ofText? (k : IntKind) : List Char → Option (Word k)
  | '-' :: cs =>
    if k.isSigned then (Text.natural? cs).bind fun n => ofInt? k (-(n : Int)) else none
  | '+' :: cs => (Text.natural? cs).bind fun n => ofInt? k n
  | cs => (Text.natural? cs).bind fun n => ofInt? k n

/-- The truth value that a text stands for. -/
def truthOfText? (text : String) : Option Bool :=
  if text = "true" then some true
  else if text = "false" then some false
  else none

/-- The payload of a kind that a text stands for. -/
def Kind.payload? (text : String) : (k : Kind) → Option k.Payload
  | .int k => Word.ofText? k text.toList
  | .float _ => Binary.ofText? text.toList
  | .text => some text
  | .bool => truthOfText? text
  | .instant => Timestamp.parse? text.toList
  | .duration => Duration.ofText? text.toList

/-- The texts before and after the first colon. -/
def splitColon? (cs : List Char) : Option (String × String) :=
  match cs.dropWhile (· ≠ ':') with
  | [] => none
  | _ :: payload => some (String.ofList (cs.takeWhile (· ≠ ':')), String.ofList payload)

/-- The kind with a name. -/
def kindOfName (name : String) : Except LiteralError Kind :=
  match Kind.ofName? name with
  | some k => .ok k
  | none => .error (.unknownKind name)

/-- The scalar of a kind that a text stands for. -/
def scalarOfText (k : Kind) (text : String) : Except LiteralError Scalar :=
  match k.payload? text with
  | some payload => .ok ⟨k, payload⟩
  | none => .error (.invalid k text)

namespace Literal

variable {ε : Type}

/-- A literal without a kind: a word, else an integer, else a decimal number. -/
def bare (text : String) : Except LiteralError (Value ε) :=
  if text = "nil" then .ok .nil
  else
    match truthOfText? text with
    | some b => .ok (.ofBool b)
    | none =>
      match Word.ofText? _ text.toList with
      | some w => .ok (.scalar (.ofWord w))
      | none =>
        match Binary.ofText? text.toList with
        | some x => .ok (.scalar (.ofBinary x))
        | none => .error (.unrecognized text)

/-- A literal of a reference, from the text after its ampersand. -/
def reference (rest : List Char) : Except LiteralError (Value ε) :=
  match splitColon? rest with
  | none => .error (.unrecognized (String.ofList ('&' :: rest)))
  | some (name, payload) => do
    let k ← kindOfName name
    if payload = "nil" then .ok (.ref (.nil k))
    else .ok (.ref (.present (← scalarOfText k payload)))

/-- The value that a text stands for. -/
def parse (text : String) : Except LiteralError (Value ε) :=
  match text.toList with
  | '&' :: rest => reference rest
  | cs =>
    match splitColon? cs with
    | none => bare text
    | some (name, payload) => do
      let k ← kindOfName name
      .ok (.scalar (← scalarOfText k payload))

end Literal

end DynamicOps
