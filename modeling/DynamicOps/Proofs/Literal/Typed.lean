import DynamicOps.Literal.Basic
import DynamicOps.Proofs.Literal.Durations
import DynamicOps.Proofs.Text.Decimal
import DynamicOps.Value.Labelled

/-!
Typed literals read back. A literal with the name of a kind before its first colon is read as a
payload of that kind, whatever the rest of it holds, and a reference to it is read in the same way
but for the payload `nil`. What is written for an integer, a truth value, a text, or a duration is
read as exactly that.
-/

namespace DynamicOps

theorem Kind.ofName?_name (k : Kind) : Kind.ofName? k.name = some k := by
  rcases k with (w | w) | p | _ | _ | _ | _
  case int.unsigned | int.signed => cases w <;> rfl
  case float => cases p <;> rfl
  all_goals rfl

/-- Names of kinds hold letters and digits only. -/
theorem Kind.isAlphanum_name (k : Kind) : k.name.toList.all Char.isAlphanum = true := by
  rcases k with (w | w) | p | _ | _ | _ | _
  case int.unsigned | int.signed => cases w <;> rfl
  case float => cases p <;> rfl
  all_goals rfl

theorem Kind.ne_of_mem_name {k : Kind} {c d : Char} (hc : c ∈ k.name.toList)
    (hd : d.isAlphanum = false)
    : c ≠ d := by
  rintro rfl
  have halphanum := List.all_eq_true.mp k.isAlphanum_name c hc
  cases halphanum.symm.trans hd

theorem splitColon?_append {name payload : List Char} (hname : ∀ c ∈ name, c ≠ ':')
    : splitColon? (name ++ ':' :: payload)
      = some (String.ofList name, String.ofList payload) := by
  have hinside : ∀ c ∈ name, decide (c ≠ ':') = true := by simpa using hname
  have hboundary : ∀ c ∈ (':' :: payload).head?, decide (c ≠ ':') = false := by simp
  rw [splitColon?, dropWhile_append_of_boundary hinside hboundary,
    takeWhile_append_of_boundary hinside hboundary]

namespace Literal

variable {ε : Type}

/-- The literal of a kind with a payload. -/
def typed (k : Kind) (payload : String) : String :=
  k.name ++ ":" ++ payload

/-- The literal of a reference to a kind with a payload. -/
def referring (k : Kind) (payload : String) : String :=
  "&" ++ typed k payload

theorem toList_typed (k : Kind) (payload : String)
    : (typed k payload).toList = k.name.toList ++ ':' :: payload.toList := by
  simp [typed]

theorem splitColon?_typed (k : Kind) (payload : String)
    : splitColon? (typed k payload).toList = some (k.name, payload) := by
  have hname : ∀ c ∈ k.name.toList, c ≠ ':' := fun c hc => Kind.ne_of_mem_name hc (by decide)
  rw [toList_typed, splitColon?_append hname, String.ofList_toList, String.ofList_toList]

/-- A literal with the name of a kind does not begin with the ampersand of a reference. -/
theorem toList_typed_ne (k : Kind) (payload : String) (rest : List Char)
    : (typed k payload).toList ≠ '&' :: rest := by
  intro h
  rw [toList_typed] at h
  cases hname : k.name.toList with
  | nil =>
      rw [hname] at h
      cases h
  | cons c cs =>
      rw [hname] at h
      have hc : c ∈ k.name.toList := by simp [hname]
      exact Kind.ne_of_mem_name hc (by decide) (List.cons.inj h).1

theorem parse_typed (k : Kind) (payload : String)
    : (parse (typed k payload) : Except LiteralError (Value ε))
      = (scalarOfText k payload).map .scalar := by
  unfold parse
  split
  next rest h => exact absurd h (toList_typed_ne k payload rest)
  next =>
    simp only [splitColon?_typed, kindOfName, Kind.ofName?_name, bind, Except.bind]
    cases scalarOfText k payload <;> rfl

theorem parse_referring (k : Kind) (payload : String)
    : (parse (referring k payload) : Except LiteralError (Value ε))
      = if payload = "nil" then .ok (.ref (.nil k))
        else (scalarOfText k payload).map fun s => .ref (.present s) := by
  have htext : (referring k payload).toList = '&' :: (typed k payload).toList := by
    simp [referring]
  rw [parse, htext]
  simp only [reference, splitColon?_typed, kindOfName, Kind.ofName?_name, bind, Except.bind]
  by_cases hnil : payload = "nil"
  · simp only [if_pos hnil]
  · simp only [if_neg hnil]
    cases scalarOfText k payload <;> rfl

end Literal

theorem Word.ofInt?_eq_some {k : IntKind} {n : Int} (hleast : k.least ≤ n)
    (hgreatest : n ≤ k.greatest)
    : ofInt? k n = some ⟨n, hleast, hgreatest⟩ :=
  dif_pos ⟨hleast, hgreatest⟩

theorem Word.ofInt?_eq_none {k : IntKind} {n : Int} (h : ¬ (k.least ≤ n ∧ n ≤ k.greatest))
    : ofInt? k n = none :=
  dif_neg h

theorem Word.ofText?_digits (k : IntKind) (n : Nat)
    : ofText? k (Text.digits n) = ofInt? k n := by
  obtain ⟨c, cs, hdigits, hc⟩ := Text.exists_digits_eq_cons n
  unfold ofText?
  split
  next h =>
    cases hdigits.symm.trans h
    cases hc
  next h =>
    cases hdigits.symm.trans h
    cases hc
  next => rw [Text.natural?_digits, Option.bind_some]

/-- An integer in decimal is read as itself by every kind; unsigned kinds refuse a minus sign, and
have no negative integers.
-/
theorem Word.ofText?_integer (k : IntKind) (n : Int)
    : ofText? k (Text.integer n) = ofInt? k n := by
  unfold Text.integer
  split
  next hneg =>
    have hn : -(n.natAbs : Int) = n := by omega
    rw [ofText?, Text.natural?_digits, Option.bind_some, hn]
    cases k with
    | signed w => rfl
    | unsigned w =>
        have hout : ¬ ((IntKind.unsigned w).least ≤ n ∧ n ≤ (IntKind.unsigned w).greatest) :=
          fun h => absurd h.1 (by simpa [IntKind.least] using hneg)
        rw [ofInt?_eq_none hout]
        rfl
  next hneg =>
    have hn : (n.natAbs : Int) = n := by omega
    rw [ofText?_digits, hn]

namespace Kind

theorem payload?_integer (k : IntKind) (n : Int)
    : (int k).payload? (String.ofList (Text.integer n)) = Word.ofInt? k n := by
  rw [payload?, String.toList_ofList, Word.ofText?_integer]

theorem payload?_instant (cs : List Char)
    : instant.payload? (String.ofList cs) = Timestamp.parse? cs := by
  rw [payload?, String.toList_ofList]

theorem payload?_duration (cs : List Char)
    : duration.payload? (String.ofList cs) = Duration.ofText? cs := by
  rw [payload?, String.toList_ofList]

end Kind

theorem truthOfText?_text (b : Bool) : truthOfText? (if b then "true" else "false") = some b := by
  cases b <;> rfl

/-- Every scalar but floating numbers and instants has a text that is read as its payload, by cases
on its kind.
-/
theorem exists_payload {s : Scalar} (hfloat : s.kind.isFloat = false) (hinstant : s.kind ≠ .instant)
    : ∃ text, s.kind.payload? text = some s.payload := by
  obtain ⟨k | p | _ | _ | _ | _, x⟩ := s
  case int =>
    exact ⟨_, (Kind.payload?_integer k x.val).trans (Word.ofInt?_eq_some x.least_le x.le_greatest)⟩
  case float => cases hfloat
  case text => exact ⟨x, rfl⟩
  case bool => exact ⟨_, truthOfText?_text x⟩
  case instant => exact absurd rfl hinstant
  case duration =>
    obtain ⟨cs, hcs⟩ := Duration.exists_ofText? x
    exact ⟨_, (Kind.payload?_duration cs).trans hcs⟩

/-- The payload `nil` is read as a text only. -/
theorem eq_of_payload?_nil {s : Scalar} (h : s.kind.payload? "nil" = some s.payload)
    : s = ⟨.text, "nil"⟩ := by
  obtain ⟨k | p | _ | _ | _ | _, x⟩ := s
  case text =>
    cases h
    rfl
  case float => cases p <;> cases h
  case duration =>
    have hnone : Duration.ofText? "nil".toList = none := by decide +kernel
    cases hnone.symm.trans h
  all_goals cases h

namespace Literal

variable {ε : Type}

theorem parse_of_payload? {k : Kind} {payload : String} {x : k.Payload}
    (h : k.payload? payload = some x)
    : @parse ε (typed k payload) = .ok (.scalar ⟨k, x⟩) := by
  rw [parse_typed, scalarOfText, h]
  rfl

theorem parse_of_payload?_eq_none {k : Kind} {payload : String} (h : k.payload? payload = none)
    : @parse ε (typed k payload) = .error (.invalid k payload) := by
  rw [parse_typed, scalarOfText, h]
  rfl

/-- A reference is read as the bare literal is, with the same error. -/
structure ReadAlike (ε : Type) (k : Kind) (payload : String) : Prop where
  value : ∀ v, @parse ε (referring k payload) = .ok v
    ↔ ∃ s, @parse ε (typed k payload) = .ok (.scalar s) ∧ v = .ref (.present s)
  error : ∀ e, @parse ε (referring k payload) = .error e ↔ @parse ε (typed k payload) = .error e

theorem readAlike_of_ne_nil {k : Kind} {payload : String} (h : payload ≠ "nil")
    : ReadAlike ε k payload := by
  have hreferring := @parse_referring ε k payload
  rw [if_neg h] at hreferring
  refine ⟨fun v => ?_, fun e => ?_⟩ <;> rw [hreferring, parse_typed]
  · cases scalarOfText k payload <;> simp [Except.map, eq_comm]
  · cases scalarOfText k payload <;> simp [Except.map]

/-- What literals with a kind are read as. -/
structure ReadsBack (ε : Type) : Prop where
  /-- An integer in decimal is itself in every kind that has it. -/
  integer : ∀ (k : IntKind) (n : Int) (hleast : k.least ≤ n) (hgreatest : n ≤ k.greatest),
    @parse ε (typed (.int k) (String.ofList (Text.integer n)))
      = .ok (.scalar ⟨.int k, ⟨n, hleast, hgreatest⟩⟩)
  /-- An integer in decimal is invalid in every kind that does not have it. -/
  outOfRange : ∀ (k : IntKind) (n : Int), ¬ (k.least ≤ n ∧ n ≤ k.greatest) →
    @parse ε (typed (.int k) (String.ofList (Text.integer n)))
      = .error (.invalid (.int k) (String.ofList (Text.integer n)))
  truth : ∀ b : Bool, @parse ε (typed .bool (if b then "true" else "false")) = .ok (.ofBool b)
  /-- A text is itself, with all the colons in it. -/
  text : ∀ s : String, @parse ε (typed .text s) = .ok (.scalar ⟨.text, s⟩)
  /-- A duration towards the future is read from its parts, with a plus sign or without one. -/
  duration : ∀ (d : Duration) (seconds nanos : Nat), nanos < 1000000000 →
    d.nanos = (seconds * 1000000000 + nanos : Nat) →
      @parse ε (typed .duration (String.ofList (Duration.inParts seconds nanos)))
        = .ok (.scalar ⟨.duration, d⟩)
      ∧ @parse ε (typed .duration (String.ofList ('+' :: Duration.inParts seconds nanos)))
        = .ok (.scalar ⟨.duration, d⟩)
  /-- A duration towards the past is read from its parts after a minus sign. -/
  pastDuration : ∀ (d : Duration) (seconds nanos : Nat), nanos < 1000000000 →
    d.nanos = -(seconds * 1000000000 + nanos : Nat) →
      @parse ε (typed .duration (String.ofList ('-' :: Duration.inParts seconds nanos)))
        = .ok (.scalar ⟨.duration, d⟩)
  reference : ∀ (k : Kind) (payload : String), payload ≠ "nil" → ReadAlike ε k payload
  nilReference : ∀ k : Kind, @parse ε (referring k "nil") = .ok (.ref (.nil k))
  /-- Every scalar but floating numbers and instants has a literal. The same literal after an
  ampersand is the reference to it, unless it is the text that stands for no target.
  -/
  scalar : ∀ s : Scalar, s.kind.isFloat = false → s.kind ≠ .instant →
    ∃ payload, @parse ε (typed s.kind payload) = .ok (.scalar s)
      ∧ (s ≠ ⟨.text, "nil"⟩ → @parse ε (referring s.kind payload) = .ok (.ref (.present s)))

/-- Literals with a kind are read back: the first colon ends the name of the kind, and the payload
after it is read as what it was written for.
-/
theorem typed_literals_read_back : ReadsBack ε where
  integer k n hleast hgreatest := by
    have hpayload := (Kind.payload?_integer k n).trans (Word.ofInt?_eq_some hleast hgreatest)
    exact parse_of_payload? hpayload
  outOfRange k n h := by
    have hpayload := (Kind.payload?_integer k n).trans (Word.ofInt?_eq_none h)
    exact parse_of_payload?_eq_none hpayload
  truth b := parse_of_payload? (truthOfText?_text b)
  text s := parse_of_payload? rfl
  duration d seconds nanos hnanos h := by
    obtain ⟨hbare, hplus⟩ := Duration.ofText?_inParts hnanos h
    exact ⟨parse_of_payload? ((Kind.payload?_duration _).trans hbare),
      parse_of_payload? ((Kind.payload?_duration _).trans hplus)⟩
  pastDuration d seconds nanos hnanos h := by
    have hminus := Duration.ofText?_minus_inParts hnanos h
    exact parse_of_payload? ((Kind.payload?_duration _).trans hminus)
  reference k payload h := readAlike_of_ne_nil h
  nilReference k := by
    rw [parse_referring, if_pos rfl]
  scalar s hfloat hinstant := by
    obtain ⟨payload, hpayload⟩ := exists_payload hfloat hinstant
    have hread : @parse ε (typed s.kind payload) = .ok (.scalar s) := parse_of_payload? hpayload
    refine ⟨payload, hread, fun hs => ?_⟩
    have hnil : payload ≠ "nil" := by
      rintro rfl
      exact hs (eq_of_payload?_nil hpayload)
    exact ((readAlike_of_ne_nil hnil).value _).mpr ⟨s, hread, rfl⟩

/-- The least integer of a kind by reference, one above the greatest of another kind, and the
longest duration towards the past.
-/
theorem typed_literals_read_back_extremes
    : @parse Labelled "&i64:-9223372036854775808"
        = .ok (.ref (.present ⟨.i64, ⟨-9223372036854775808, by decide, by decide⟩⟩))
      ∧ @parse Labelled "u8:256" = .error (.invalid (.int (.unsigned .w8)) "256")
      ∧ @parse Labelled "duration:-9223372036854775s807000000ns"
        = .ok (.scalar ⟨.duration, ⟨-9223372036854775807000000, by decide, by decide⟩⟩) := by
  have hliterals : ReadsBack Labelled := typed_literals_read_back
  have hleast := hliterals.integer (.signed .w64) (-9223372036854775808) (by decide) (by decide)
  refine ⟨?_, hliterals.outOfRange (.unsigned .w8) 256 (by decide), ?_⟩
  · exact ((hliterals.reference .i64 "-9223372036854775808" (by decide)).value _).mpr
      ⟨_, hleast, rfl⟩
  · exact hliterals.pastDuration ⟨-9223372036854775807000000, by decide, by decide⟩
      9223372036854775 807000000 (by decide) rfl

end Literal

end DynamicOps
