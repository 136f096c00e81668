import DynamicOps.Proofs.Arithmetic.Outcomes
import DynamicOps.Proofs.Ordering.Integers

/-!
Integer arithmetic modulo the count of 64-bit words. Whatever the kinds of two integers, their sum,
difference, and product are the word that has the residue of the exact result. Results may be used
as operands again, so the laws of the integers hold for them as equalities of values.
-/

namespace DynamicOps

variable {ε : Type}

/-- The value is an integer of some kind with the residue of an integer. -/
def Value.HasResidue (v : Value ε) (n : Int) : Prop :=
  ∃ (k : IntKind) (x : Word k), v = .scalar ⟨.int k, x⟩ ∧ x.val ≡ n [ZMOD 18446744073709551616]

/-- The result is the 64-bit word with the residue of an integer, and so the integer itself if that
is a 64-bit word.
-/
def WordOf (n : Int) (result : Except OpError (Value ε)) : Prop :=
  ∃ r : Word64,
    result = .ok (.scalar (.ofWord r))
    ∧ r.val ≡ n [ZMOD 18446744073709551616]
    ∧ ((IntKind.signed .w64).least ≤ n → n ≤ (IntKind.signed .w64).greatest → r.val = n)

/-- Two computations have results, and the same one. -/
def Agree (p q : Except OpError (Value ε)) : Prop :=
  ∃ v, p = .ok v ∧ q = .ok v

theorem Value.hasResidue_int {k : IntKind} (x : Word k)
    : (.scalar ⟨.int k, x⟩ : Value ε).HasResidue x.val :=
  ⟨k, x, rfl, rfl⟩

theorem wordOf_wrap {m n : Int} (h : m ≡ n [ZMOD 18446744073709551616])
    : WordOf n (.ok (.scalar (.ofWord (.wrap m))) : Except OpError (Value ε)) := by
  have hresidue := (Word.val_wrap_modEq m).trans h
  exact ⟨_, rfl, hresidue, fun hleast hgreatest => Word.val_eq_of_modEq hleast hgreatest hresidue⟩

/-- A result goes on as an operand with its residue. -/
theorem WordOf.bind {m n : Int} {p : Except OpError (Value ε)}
    {f : Value ε → Except OpError (Value ε)} (hp : WordOf m p)
    (hf : ∀ v : Value ε, v.HasResidue m → WordOf n (f v))
    : WordOf n (p >>= f) := by
  obtain ⟨r, rfl, hr, _⟩ := hp
  exact hf _ ⟨_, r, rfl, hr⟩

theorem WordOf.agree {n : Int} {p q : Except OpError (Value ε)} (hp : WordOf n p)
    (hq : WordOf n q)
    : Agree p q := by
  obtain ⟨r, rfl, hr, _⟩ := hp
  obtain ⟨s, rfl, hs, _⟩ := hq
  have hrs : r = s := by
    obtain ⟨i, hleast, hgreatest⟩ := s
    obtain ⟨j, _, _⟩ := r
    rw [Word.mk.injEq]
    exact Word.val_eq_of_modEq hleast hgreatest (hr.trans hs.symm)
  exact ⟨_, rfl, by rw [hrs]⟩

variable [Extension ε] {a b c : Value ε} {m n : Int}

/-- An operator that promotes integers to words and wraps its exact results around has the word of
the exact result on residues, if it respects residues.
-/
theorem wordOf_apply {o : Arithmetic} {f : Int → Int → Int}
    (hpromote : ∀ k l : IntKind, promote (.compute o) (.int k) (.int l) = some .i64)
    (hwords : ∀ v w : Word64, o.onWords? v w = some (.ok (.wrap (f v.val w.val))))
    (hcongr
      : ∀ {i j i' j' : Int},
          i ≡ i' [ZMOD 18446744073709551616] → j ≡ j' [ZMOD 18446744073709551616] →
          f i j ≡ f i' j' [ZMOD 18446744073709551616])
    (ha : a.HasResidue m) (hb : b.HasResidue n)
    : WordOf (f m n) (apply (.compute o) a b) := by
  obtain ⟨k, x, rfl, hx⟩ := ha
  obtain ⟨l, y, rfl, hy⟩ := hb
  have hbody : o.Performs (.int k) (.int l) (.promote .i64) :=
    .promoted (Arithmetic.mem_pairwiseKinds o rfl) (Arithmetic.mem_pairwiseKinds o rfl)
      (hpromote k l)
  have hcompute : (Body.promote .i64).compute? o ⟨.int k, x⟩ ⟨.int l, y⟩
      = some (.ok (.ofWord (.wrap (f (Word.wrap x.val).val (Word.wrap y.val).val)))) := by
    simp [Body.compute?, Arithmetic.promoted?, Scalar.toWord?, hwords, Except.map]
  rw [apply_compute_of_performs hbody hcompute]
  exact wordOf_wrap
    (hcongr ((Word.val_wrap_modEq _).trans hx) ((Word.val_wrap_modEq _).trans hy))

theorem wordOf_add (ha : a.HasResidue m) (hb : b.HasResidue n)
    : WordOf (m + n) (apply (.compute .add) a b) :=
  wordOf_apply (fun _ _ => rfl) (fun _ _ => rfl) Int.ModEq.add ha hb

theorem wordOf_subtract (ha : a.HasResidue m) (hb : b.HasResidue n)
    : WordOf (m - n) (apply (.compute .subtract) a b) :=
  wordOf_apply (fun _ _ => rfl) (fun _ _ => rfl) Int.ModEq.sub ha hb

theorem wordOf_multiply (ha : a.HasResidue m) (hb : b.HasResidue n)
    : WordOf (m * n) (apply (.compute .multiply) a b) :=
  wordOf_apply (fun _ _ => rfl) (fun _ _ => rfl) Int.ModEq.mul ha hb

/-- A word with the residue of an integer is equal to that integer, natively if they are of one kind
and as words otherwise.
-/
theorem equal_of_modEq {k : IntKind} {r : Word64} {x : Word k}
    (h : r.val ≡ x.val [ZMOD 18446744073709551616])
    : apply .equal (.scalar (.ofWord r) : Value ε) (.scalar ⟨.int k, x⟩) = .ok (.ofBool true) := by
  by_cases hk : .signed .w64 = k
  · subst hk
    have hval : r.val = x.val := Word.val_eq_of_modEq x.least_le x.le_greatest h
    rw [Scalar.ofWord, (comparedAs_same_kind r x).equal, decide_eq_true hval]
  · have hval : (Word.wrap r.val).val = (Word.wrap x.val).val := by
      rw [Word.wrap_eq_wrap_iff.mpr (Int.emod_eq_zero_of_dvd h.symm.dvd)]
    rw [Scalar.ofWord, (comparedAs_of_kind_ne hk r x).equal, decide_eq_true hval]

/-- Addition, subtraction, and multiplication of three values are those of three integers modulo the
count of words, and results are operands like any other.
-/
structure ModularArithmetic (a b c : Value ε) (i j l : Int) : Prop where
  sum : WordOf (i + j) (apply (.compute .add) a b)
  difference : WordOf (i - j) (apply (.compute .subtract) a b)
  product : WordOf (i * j) (apply (.compute .multiply) a b)
  add_comm : Agree (apply (.compute .add) a b) (apply (.compute .add) b a)
  add_assoc
    : Agree (apply (.compute .add) a b >>= fun s => apply (.compute .add) s c)
        (apply (.compute .add) b c >>= fun s => apply (.compute .add) a s)
  multiply_comm : Agree (apply (.compute .multiply) a b) (apply (.compute .multiply) b a)
  multiply_assoc
    : Agree (apply (.compute .multiply) a b >>= fun p => apply (.compute .multiply) p c)
        (apply (.compute .multiply) b c >>= fun p => apply (.compute .multiply) a p)
  distributive
    : Agree (apply (.compute .add) b c >>= fun s => apply (.compute .multiply) a s)
        (apply (.compute .multiply) a b >>= fun p =>
          apply (.compute .multiply) a c >>= fun q => apply (.compute .add) p q)
  /-- Subtraction undoes addition, up to equality of integers of different kinds. -/
  undone
    : (apply (.compute .add) a b >>= fun s =>
        apply (.compute .subtract) s b >>= fun d => apply .equal d a) = .ok (.ofBool true)

/-- The arithmetic of integers is modular in every mixture of kinds. Each law holds because both of
its sides have the word of one exact result.
-/
theorem integer_arithmetic_modular {k₁ k₂ k₃ : IntKind} (x : Word k₁) (y : Word k₂) (z : Word k₃)
    : ModularArithmetic (.scalar ⟨.int k₁, x⟩ : Value ε) (.scalar ⟨.int k₂, y⟩)
        (.scalar ⟨.int k₃, z⟩) x.val y.val z.val := by
  have hx : (.scalar ⟨.int k₁, x⟩ : Value ε).HasResidue x.val := Value.hasResidue_int x
  have hy : (.scalar ⟨.int k₂, y⟩ : Value ε).HasResidue y.val := Value.hasResidue_int y
  have hz : (.scalar ⟨.int k₃, z⟩ : Value ε).HasResidue z.val := Value.hasResidue_int z
  refine
    { sum := wordOf_add hx hy
      difference := wordOf_subtract hx hy
      product := wordOf_multiply hx hy
      add_comm := ?_
      add_assoc := ?_
      multiply_comm := ?_
      multiply_assoc := ?_
      distributive := ?_
      undone := ?_ }
  · have hswapped := wordOf_add hy hx
    rw [Int.add_comm] at hswapped
    exact (wordOf_add hx hy).agree hswapped
  · have hleft := (wordOf_add hx hy).bind fun _ hs => wordOf_add hs hz
    have hright := (wordOf_add hy hz).bind fun _ hs => wordOf_add hx hs
    rw [← Int.add_assoc] at hright
    exact hleft.agree hright
  · have hswapped := wordOf_multiply hy hx
    rw [Int.mul_comm] at hswapped
    exact (wordOf_multiply hx hy).agree hswapped
  · have hleft := (wordOf_multiply hx hy).bind fun _ hp => wordOf_multiply hp hz
    have hright := (wordOf_multiply hy hz).bind fun _ hp => wordOf_multiply hx hp
    rw [← Int.mul_assoc] at hright
    exact hleft.agree hright
  · have hleft := (wordOf_add hy hz).bind fun _ hs => wordOf_multiply hx hs
    have hright := (wordOf_multiply hx hy).bind fun _ hp =>
      (wordOf_multiply hx hz).bind fun _ hq => wordOf_add hp hq
    rw [Int.mul_add] at hleft
    exact hleft.agree hright
  · have hdifference := (wordOf_add hx hy).bind fun _ hs => wordOf_subtract hs hy
    rw [Int.add_sub_cancel] at hdifference
    obtain ⟨r, hr, hresidue, _⟩ := hdifference
    rw [← bind_assoc, hr]
    exact equal_of_modEq hresidue

/-- The difference of two integers above the 64-bit signed words is one of these words. -/
theorem integer_arithmetic_modular_wide
    : (IntKind.signed .w64).least ≤ 18446744073709551615 - 9223372036854775808
      ∧ 18446744073709551615 - 9223372036854775808 ≤ (IntKind.signed .w64).greatest
      ∧ apply (.compute .subtract)
          (.scalar ⟨.int (.unsigned .w64), ⟨18446744073709551615, by decide, by decide⟩⟩
            : Value Labelled)
          (.scalar ⟨.int (.unsigned .size), ⟨9223372036854775808, by decide, by decide⟩⟩)
        = .ok (.scalar (.ofWord ⟨9223372036854775807, by decide, by decide⟩)) := by
  obtain ⟨⟨r, hleast, hgreatest⟩, hr, _, hexact⟩ :=
    (@integer_arithmetic_modular Labelled _ (.unsigned .w64) (.unsigned .size) (.signed .w8)
      ⟨18446744073709551615, by decide, by decide⟩ ⟨9223372036854775808, by decide, by decide⟩
      ⟨0, by decide, by decide⟩).difference
  obtain rfl : r = 9223372036854775807 := hexact (by decide) (by decide)
  exact ⟨by decide, by decide, hr⟩

end DynamicOps
