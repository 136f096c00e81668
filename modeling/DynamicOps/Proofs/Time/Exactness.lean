import DynamicOps.Proofs.Operation.Cases
import DynamicOps.Proofs.Time.Nanoseconds
import DynamicOps.Value.Labelled

/-!
Exactness of time arithmetic. Outside leap seconds addition and subtraction of instants and of
durations are those of their nanoseconds, up to the ends of the two ranges and no further.
-/

namespace DynamicOps

variable {ε : Type}

/-- The result is a scalar that has an exact number of nanoseconds, or an overflow of the operator
where the number is out of range.
-/
structure Exactly (o : Arithmetic) (k : Kind) (Has : k.Payload → Int → Prop) (InRange : Int → Prop)
    (n : Int) (result : Except OpError (Value ε)) : Prop where
  inRange : InRange n → ∃ z, Has z n ∧ result = .ok (.scalar ⟨k, z⟩)
  outOfRange : ¬ InRange n → result = .error (.overflow (.compute o))

/-- The result is the instant at a number of nanoseconds. -/
abbrev InstantAt (o : Arithmetic) (n : Int) (result : Except OpError (Value ε)) : Prop :=
  Exactly o .instant Instant.At Instant.InRange n result

/-- The result is the duration of a number of nanoseconds. -/
abbrev DurationOf (o : Arithmetic) (n : Int) (result : Except OpError (Value ε)) : Prop :=
  Exactly o .duration (fun d n => Duration.nanos d = n) Duration.InRange n result

theorem exactly_of_orOverflow {o : Arithmetic} {k : Kind} {Has : k.Payload → Int → Prop}
    {InRange : Int → Prop} {n : Int} {x : Option k.Payload} {result : Except OpError (Value ε)}
    (hhas : ∀ z, x = some z → Has z n) (hrange : x.isSome = true ↔ InRange n)
    (h : result = (o.orOverflow k x).map .scalar)
    : Exactly o k Has InRange n result := by
  subst h
  cases x with
  | none => exact ⟨fun h => absurd (hrange.mpr h) (by simp), fun _ => rfl⟩
  | some z => exact ⟨fun _ => ⟨z, hhas z rfl, rfl⟩, fun h => absurd (hrange.mp rfl) h⟩

theorem instantAt_of_ofNanos? {o : Arithmetic} {n : Int} {result : Except OpError (Value ε)}
    (h : result = (o.orOverflow .instant (Instant.ofNanos? n)).map .scalar)
    : InstantAt o n result :=
  exactly_of_orOverflow (fun _ => Instant.ofNanos?_eq_some_iff.mp) Instant.isSome_ofNanos?_iff h

theorem durationOf_of_ofNanos? {o : Arithmetic} {n : Int} {result : Except OpError (Value ε)}
    (h : result = (o.orOverflow .duration (Duration.ofNanos? n)).map .scalar)
    : DurationOf o n result :=
  exactly_of_orOverflow (fun _ => Duration.ofNanos?_eq_some_iff.mp) Duration.isSome_ofNanos?_iff h

/-- An instant outside leap seconds is the result at its nanoseconds. -/
theorem InstantAt.eq_ok {o : Arithmetic} {n : Int} {result : Except OpError (Value ε)} {t : Instant}
    (h : InstantAt o n result) (ht : t.At n)
    : result = .ok (.scalar ⟨.instant, t⟩) := by
  obtain ⟨z, hz, hresult⟩ := h.inRange ht.inRange
  rw [hresult, Instant.At.unique hz ht]

theorem InstantAt.exists_of_ok {o : Arithmetic} {n : Int} {v : Value ε} (h : InstantAt o n (.ok v))
    : ∃ z : Instant, z.At n ∧ v = .scalar ⟨.instant, z⟩ := by
  by_cases hrange : Instant.InRange n
  · obtain ⟨z, hz, hresult⟩ := h.inRange hrange
    exact ⟨z, hz, Except.ok.inj hresult⟩
  · cases h.outOfRange hrange

/-- A duration is the result of its nanoseconds. -/
theorem DurationOf.eq_ok {o : Arithmetic} {n : Int} {result : Except OpError (Value ε)}
    {d : Duration} (h : DurationOf o n result) (hd : d.nanos = n)
    : result = .ok (.scalar ⟨.duration, d⟩) := by
  obtain ⟨e, he, hresult⟩ := h.inRange (hd ▸ ⟨d.lower, d.upper⟩)
  have hde : e = d := by
    rw [Duration.mk.injEq, he, hd]
  rw [hresult, hde]

/-- An exact result goes on as an operand, unless it has overflowed on the way to one in range. -/
theorem DurationOf.bind {o : Arithmetic} {m n : Int} {p : Except OpError (Value ε)}
    {f : Value ε → Except OpError (Value ε)} (hp : DurationOf o m p)
    (hrange : Duration.InRange n → Duration.InRange m)
    (hf : ∀ s : Duration, s.nanos = m → DurationOf o n (f (.scalar ⟨.duration, s⟩)))
    : DurationOf o n (p >>= f) := by
  by_cases hm : Duration.InRange m
  · obtain ⟨s, hs, rfl⟩ := hp.inRange hm
    exact hf s hs
  · rw [hp.outOfRange hm]
    exact ⟨fun hn => absurd (hrange hn) hm, fun _ => rfl⟩

variable [Extension ε] {x y : Instant}

theorem instantAt_add (hx : x.isLeap = false) (d : Duration)
    : InstantAt .add (x.total + d.nanos)
        (apply (.compute .add) (.scalar ⟨.instant, x⟩ : Value ε) (.scalar ⟨.duration, d⟩)) := by
  apply instantAt_of_ofNanos?
  rw [← Instant.add?_of_ordinary hx]
  exact apply_compute_of_performs (.shift (.inl rfl)) rfl

theorem instantAt_add_swapped (hx : x.isLeap = false) (d : Duration)
    : InstantAt .add (x.total + d.nanos)
        (apply (.compute .add) (.scalar ⟨.duration, d⟩ : Value ε) (.scalar ⟨.instant, x⟩)) := by
  apply instantAt_of_ofNanos?
  rw [← Instant.add?_of_ordinary hx]
  exact apply_compute_of_performs .shiftBy rfl

theorem instantAt_subtract (hx : x.isLeap = false) (d : Duration)
    : InstantAt .subtract (x.total - d.nanos)
        (apply (.compute .subtract) (.scalar ⟨.instant, x⟩ : Value ε) (.scalar ⟨.duration, d⟩))
    := by
  apply instantAt_of_ofNanos?
  rw [← Instant.subtract?_of_ordinary hx]
  exact apply_compute_of_performs (.shift (.inr rfl)) rfl

theorem durationOf_add (d e : Duration)
    : DurationOf .add (d.nanos + e.nanos)
        (apply (.compute .add) (.scalar ⟨.duration, d⟩ : Value ε) (.scalar ⟨.duration, e⟩)) := by
  apply durationOf_of_ofNanos?
  rw [← Duration.add?_eq_ofNanos?]
  exact apply_compute_of_performs (.checked (.inl rfl)) rfl

theorem durationOf_subtract (d e : Duration)
    : DurationOf .subtract (d.nanos - e.nanos)
        (apply (.compute .subtract) (.scalar ⟨.duration, d⟩ : Value ε) (.scalar ⟨.duration, e⟩))
    := by
  apply durationOf_of_ofNanos?
  rw [← Duration.subtract?_eq_ofNanos?]
  exact apply_compute_of_performs (.checked (.inr rfl)) rfl

theorem apply_subtract_instants (x y : Instant)
    : apply (.compute .subtract) (.scalar ⟨.instant, x⟩ : Value ε) (.scalar ⟨.instant, y⟩)
      = .ok (.scalar ⟨.duration, x.elapsed y⟩) := by
  have hcompute
      : Body.elapsed.compute? .subtract ⟨.instant, x⟩ ⟨.instant, y⟩
        = some (.ok ⟨.duration, x.elapsed y⟩) := rfl
  exact apply_compute_of_performs .elapsed hcompute

/-- Time arithmetic on two instants and two durations is that of their nanoseconds. -/
structure TimeArithmetic (ε : Type) [Extension ε] (x y : Instant) (d e : Duration) : Prop where
  later : InstantAt .add (x.total + d.nanos)
    (apply (.compute .add) (.scalar ⟨.instant, x⟩ : Value ε) (.scalar ⟨.duration, d⟩))
  laterBy : InstantAt .add (x.total + d.nanos)
    (apply (.compute .add) (.scalar ⟨.duration, d⟩ : Value ε) (.scalar ⟨.instant, x⟩))
  earlier : InstantAt .subtract (x.total - d.nanos)
    (apply (.compute .subtract) (.scalar ⟨.instant, x⟩ : Value ε) (.scalar ⟨.duration, d⟩))
  sum : DurationOf .add (d.nanos + e.nanos)
    (apply (.compute .add) (.scalar ⟨.duration, d⟩ : Value ε) (.scalar ⟨.duration, e⟩))
  difference : DurationOf .subtract (d.nanos - e.nanos)
    (apply (.compute .subtract) (.scalar ⟨.duration, d⟩ : Value ε) (.scalar ⟨.duration, e⟩))
  elapsed : ∃ s : Duration, s.nanos = x.total - y.total
    ∧ apply (.compute .subtract) (.scalar ⟨.instant, x⟩ : Value ε) (.scalar ⟨.instant, y⟩)
      = .ok (.scalar ⟨.duration, s⟩)
  /-- The difference of two instants leads from the second to the first, and back. -/
  between : ∀ v : Value ε,
    apply (.compute .subtract) (.scalar ⟨.instant, x⟩) (.scalar ⟨.instant, y⟩) = .ok v →
    apply (.compute .add) (.scalar ⟨.instant, y⟩) v = .ok (.scalar ⟨.instant, x⟩)
      ∧ apply (.compute .subtract) (.scalar ⟨.instant, x⟩) v = .ok (.scalar ⟨.instant, y⟩)
  /-- Subtraction undoes an addition that does not overflow. -/
  undone : ∀ v : Value ε,
    apply (.compute .add) (.scalar ⟨.instant, x⟩) (.scalar ⟨.duration, d⟩) = .ok v →
    apply (.compute .subtract) v (.scalar ⟨.duration, d⟩) = .ok (.scalar ⟨.instant, x⟩)

/-- Time arithmetic is exact outside leap seconds. -/
theorem time_arithmetic_exact (hx : x.isLeap = false) (hy : y.isLeap = false) (d e : Duration)
    : TimeArithmetic ε x y d e where
  later := instantAt_add hx d
  laterBy := instantAt_add_swapped hx d
  earlier := instantAt_subtract hx d
  sum := durationOf_add d e
  difference := durationOf_subtract d e
  elapsed := ⟨x.elapsed y, Instant.distance_of_ordinary hx hy, apply_subtract_instants x y⟩
  between v h := by
    have hv := Except.ok.inj ((apply_subtract_instants x y).symm.trans h)
    have hnanos : (x.elapsed y).nanos = x.total - y.total := Instant.distance_of_ordinary hx hy
    subst hv
    exact ⟨InstantAt.eq_ok (instantAt_add hy _) ⟨hx, by omega⟩,
      InstantAt.eq_ok (instantAt_subtract hx _) ⟨hy, by omega⟩⟩
  undone v h := by
    obtain ⟨z, ⟨hz, htotal⟩, rfl⟩ := InstantAt.exists_of_ok (h ▸ instantAt_add hx d)
    exact InstantAt.eq_ok (instantAt_subtract hz d) ⟨hx, by omega⟩

/-- A nanosecond more than the longest duration overflows. -/
theorem time_arithmetic_exact_longest
    : (⟨-1, 500000000, by decide, by decide, by decide, by decide⟩ : Instant).isLeap = false
      ∧ (⟨0, 0, by decide, by decide, by decide, by decide⟩ : Instant).isLeap = false
      ∧ apply (.compute .add)
          (.scalar ⟨.duration, ⟨Duration.limit, by decide, by decide⟩⟩ : Value Labelled)
          (.scalar ⟨.duration, ⟨1, by decide, by decide⟩⟩)
        = .error (.overflow (.compute .add)) := by
  have hexact : TimeArithmetic Labelled
      ⟨-1, 500000000, by decide, by decide, by decide, by decide⟩
      ⟨0, 0, by decide, by decide, by decide, by decide⟩
      ⟨Duration.limit, by decide, by decide⟩ ⟨1, by decide, by decide⟩ :=
    time_arithmetic_exact rfl rfl _ _
  exact ⟨rfl, rfl, hexact.sum.outOfRange (by decide)⟩

end DynamicOps
