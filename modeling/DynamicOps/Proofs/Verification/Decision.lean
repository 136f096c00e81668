import DynamicOps.Proofs.Verification.Support
import Mathlib.Data.List.Nodup

/-!
What verification decides. A table is accepted exactly when it repeats no arm and no case, has
cases its operator accepts, and has every required pair, and an error names a defect that the
table has.
-/

namespace DynamicOps

/-- Some arm for the left pattern has a case for the right one. -/
def Table.Contains (t : Table) (p q : Pattern) : Prop :=
  ∃ arm ∈ t.arms, arm.lhs = p ∧ ∃ case ∈ arm.cases, case.rhs = q

/-- A table without repetitions whose cases all pass their check. -/
structure Table.Consistent (t : Table) : Prop where
  arms : (t.arms.map (·.lhs)).Nodup
  cases : ∀ arm ∈ t.arms, (arm.cases.map (·.rhs)).Nodup
  accepted
    : ∀ arm ∈ t.arms, ∀ case ∈ arm.cases, checkCase t.op arm.lhs case.rhs case.body = .ok ()

/-- A consistent table with every pair that its operator requires. -/
structure Table.Verified (t : Table) : Prop extends t.Consistent where
  required : ∀ p q, (p, q) ∈ requiredPairs t.op → t.Contains p q

/-- A verification error names a defect of a table. A missing pair is only reported for a table
that is consistent.
-/
def TableError.Truthful (t : Table) : TableError → Prop
  | .duplicateArm op p => op = t.op ∧ 2 ≤ (t.arms.map (·.lhs)).count p
  | .duplicateCase op p q =>
    op = t.op ∧ ∃ arm ∈ t.arms, arm.lhs = p ∧ 2 ≤ (arm.cases.map (·.rhs)).count q
  | .forbiddenCase op p q =>
    op = t.op
    ∧ ∃ arm ∈ t.arms, arm.lhs = p
      ∧ ∃ case ∈ arm.cases, case.rhs = q ∧ ¬ op.Supports p q case.body
  | .inconsistent op a b expected found =>
    op = t.op ∧ promote op a b = some expected ∧ expected ≠ found
    ∧ ∃ arm ∈ t.arms, arm.lhs = .scalar a ∧ ⟨.scalar b, .promote found⟩ ∈ arm.cases
  | .missingCase op p q =>
    op = t.op ∧ (p, q) ∈ requiredPairs op ∧ ¬ t.Contains p q ∧ t.Consistent

section CheckDistinct

variable {α : Type} {pattern : α → Pattern} {repeated : Pattern → TableError}
  {check : α → Except TableError Unit}

theorem checkDistinct_cons_of_not_mem {seen : List Pattern} {x : α} {xs : List α}
    (h : pattern x ∉ seen)
    : checkDistinct pattern repeated check seen (x :: xs)
      = (check x).bind fun _ => checkDistinct pattern repeated check (pattern x :: seen) xs := by
  rw [checkDistinct, if_neg h]
  rfl

/-- The loop ends well exactly when no pattern repeats and every entry passes its check, by
induction over the entries with the patterns seen before them.
-/
theorem checkDistinct_eq_ok_iff {seen : List Pattern} {xs : List α}
    : checkDistinct pattern repeated check seen xs = .ok ()
      ↔ (∀ x ∈ xs, pattern x ∉ seen) ∧ (xs.map pattern).Nodup ∧ ∀ x ∈ xs, check x = .ok () := by
  induction xs generalizing seen with
  | nil => simp [checkDistinct]
  | cons x xs ih =>
      by_cases hseen : pattern x ∈ seen
      · refine iff_of_false ?_ fun h => h.1 x (by simp) hseen
        simp [checkDistinct, hseen]
      · rw [checkDistinct_cons_of_not_mem hseen]
        cases hx : check x with
        | error e =>
            refine iff_of_false (by simp [Except.bind]) fun h => ?_
            simpa [hx] using h.2.2 x (by simp)
        | ok _ =>
            simp only [Except.bind, ih]
            constructor
            · rintro ⟨hfresh, hnodup, hchecks⟩
              have hhead : pattern x ∉ xs.map pattern := by
                intro hmem
                obtain ⟨y, hy, hyx⟩ := List.mem_map.mp hmem
                exact hfresh y hy (hyx ▸ List.mem_cons_self)
              refine ⟨List.forall_mem_cons.mpr ⟨hseen, fun y hy hmem => ?_⟩,
                List.nodup_cons.mpr ⟨hhead, hnodup⟩, List.forall_mem_cons.mpr ⟨hx, hchecks⟩⟩
              exact hfresh y hy (List.mem_cons_of_mem _ hmem)
            · rintro ⟨hfresh, hnodup, hchecks⟩
              obtain ⟨hhead, htail⟩ := List.nodup_cons.mp hnodup
              refine ⟨fun y hy hmem => ?_, htail, (List.forall_mem_cons.mp hchecks).2⟩
              rcases List.mem_cons.mp hmem with hyx | hmem
              · exact hhead (List.mem_map.mpr ⟨y, hy, hyx⟩)
              · exact hfresh y (List.mem_cons_of_mem _ hy) hmem

/-- The loop fails with a pattern that repeats, among the entries or with one seen before them, or
with the failure of an entry's check. By induction over the entries.
-/
theorem checkDistinct_eq_error {seen : List Pattern} {xs : List α} {e : TableError}
    (h : checkDistinct pattern repeated check seen xs = .error e)
    : (∃ p, e = repeated p ∧ 2 ≤ (seen ++ xs.map pattern).count p)
      ∨ ∃ x ∈ xs, check x = .error e := by
  induction xs generalizing seen with
  | nil => cases h
  | cons x xs ih =>
      by_cases hseen : pattern x ∈ seen
      · rw [checkDistinct, if_pos hseen] at h
        cases h
        refine .inl ⟨pattern x, rfl, ?_⟩
        have hbefore : 1 ≤ seen.count (pattern x) := List.one_le_count_iff.mpr hseen
        simp only [List.map_cons, List.count_append, List.count_cons_self]
        omega
      · rw [checkDistinct_cons_of_not_mem hseen] at h
        cases hx : check x with
        | error e' =>
            rw [hx] at h
            cases h
            exact .inr ⟨x, by simp, hx⟩
        | ok _ =>
            rw [hx] at h
            rcases ih h with ⟨p, he, hcount⟩ | ⟨y, hy, he⟩
            · refine .inl ⟨p, he, ?_⟩
              rwa [List.map_cons, List.perm_middle.count_eq]
            · exact .inr ⟨y, by simp [hy], he⟩

end CheckDistinct

theorem Table.defines_iff {t : Table} {p q : Pattern}
    : t.defines p q = true ↔ t.Contains p q := by
  simp [defines, Contains]

theorem Table.exists_case_of_get? {t : Table} {p q : Pattern} {body : Body}
    (h : t.get? p q = some body)
    : ∃ arm ∈ t.arms, arm.lhs = p ∧ ∃ case ∈ arm.cases, case.rhs = q ∧ case.body = body := by
  obtain ⟨arm, harm, hcases⟩ := Option.bind_eq_some_iff.mp h
  obtain ⟨case, hcase, hbody⟩ := Option.map_eq_some_iff.mp hcases
  exact ⟨arm, List.mem_of_find?_eq_some harm, by simpa using List.find?_some harm,
    case, List.mem_of_find?_eq_some hcase, by simpa using List.find?_some hcase, hbody⟩

theorem Table.contains_of_isSome_get? {t : Table} {p q : Pattern}
    (h : (t.get? p q).isSome = true)
    : t.Contains p q := by
  obtain ⟨body, hbody⟩ := Option.isSome_iff_exists.mp h
  obtain ⟨arm, harm, hlhs, case, hcase, hrhs, _⟩ := exists_case_of_get? hbody
  exact ⟨arm, harm, hlhs, case, hcase, hrhs⟩

/-- Where left patterns do not repeat, a pair in the table has a body. -/
theorem Table.isSome_get?_of_contains {t : Table} {p q : Pattern}
    (harms : (t.arms.map (·.lhs)).Nodup) (h : t.Contains p q)
    : (t.get? p q).isSome = true := by
  obtain ⟨arm, harm, hlhs, case, hcase, hrhs⟩ := h
  have hfind : t.arms.find? (·.lhs = p) = some arm := by
    cases hfind : t.arms.find? (·.lhs = p) with
    | none => exact absurd hlhs (by simpa using List.find?_eq_none.mp hfind arm harm)
    | some other =>
        have hother : other.lhs = p := by simpa using List.find?_some hfind
        have hmem := List.mem_of_find?_eq_some hfind
        rw [List.inj_on_of_nodup_map harms hmem harm (hother.trans hlhs.symm)]
  rw [get?, hfind, Option.bind_some, Option.isSome_map, List.find?_isSome]
  exact ⟨case, hcase, by simpa using hrhs⟩

theorem Table.Consistent.isSome_get?_iff {t : Table} (h : t.Consistent) {p q : Pattern}
    : (t.get? p q).isSome = true ↔ t.Contains p q :=
  ⟨contains_of_isSome_get?, isSome_get?_of_contains h.arms⟩

/-- Where patterns do not repeat, a body is found for a pair if it stands there anywhere. -/
theorem Table.Consistent.get?_eq_some_iff {t : Table} (h : t.Consistent) {p q : Pattern}
    {body : Body}
    : t.get? p q = some body
      ↔ ∃ arm ∈ t.arms, arm.lhs = p ∧ ∃ case ∈ arm.cases, case.rhs = q ∧ case.body = body := by
  refine ⟨exists_case_of_get?, ?_⟩
  rintro ⟨arm, harm, hlhs, case, hcase, hrhs, rfl⟩
  have hsome := h.isSome_get?_iff.mpr ⟨arm, harm, hlhs, case, hcase, hrhs⟩
  obtain ⟨body, hbody⟩ := Option.isSome_iff_exists.mp hsome
  obtain ⟨other, hother, hlhs', case', hcase', hrhs', rfl⟩ := exists_case_of_get? hbody
  obtain rfl : other = arm := List.inj_on_of_nodup_map h.arms hother harm (hlhs'.trans hlhs.symm)
  obtain rfl : case' = case :=
    List.inj_on_of_nodup_map (h.cases other harm) hcase' hcase (hrhs'.trans hrhs.symm)
  exact hbody

/-- The arms pass exactly when the table is consistent. -/
theorem checkArms_eq_ok_iff {t : Table} : checkArms t.op t.arms = .ok () ↔ t.Consistent := by
  simp only [checkArms, checkCases, checkDistinct_eq_ok_iff, List.not_mem_nil, not_false_eq_true,
    implies_true, true_and]
  constructor
  · rintro ⟨harms, hcases⟩
    exact ⟨harms, fun arm h => (hcases arm h).1, fun arm h => (hcases arm h).2⟩
  · intro h
    exact ⟨h.arms, fun arm harm => ⟨h.cases arm harm, h.accepted arm harm⟩⟩

/-- An arm's check fails with a defect of any table that the arm is in. -/
theorem truthful_of_checkCases {t : Table} {arm : Arm} {e : TableError} (harm : arm ∈ t.arms)
    (h : checkCases t.op arm = .error e)
    : e.Truthful t := by
  rcases checkDistinct_eq_error h with ⟨q, rfl, hcount⟩ | ⟨case, hcase, he⟩
  · exact ⟨rfl, arm, harm, rfl, by simpa using hcount⟩
  · have hjudges := checkCase_judges t.op arm.lhs case.rhs case.body
    rw [he] at hjudges
    obtain ⟨p, cases⟩ := arm
    obtain ⟨q, body⟩ := case
    cases hjudges with
    | forbidden hsupports => exact ⟨rfl, _, harm, rfl, _, hcase, rfl, hsupports⟩
    | inconsistent hpromote hne => exact ⟨rfl, hpromote, hne, _, harm, rfl, hcase⟩

theorem truthful_of_checkArms {t : Table} {e : TableError}
    (h : checkArms t.op t.arms = .error e)
    : e.Truthful t := by
  rcases checkDistinct_eq_error h with ⟨p, rfl, hcount⟩ | ⟨arm, harm, he⟩
  · exact ⟨rfl, by simpa using hcount⟩
  · exact truthful_of_checkCases harm he

/-- Verification of a consistent table looks for a required pair that the table does not have. -/
theorem verify_of_consistent {t : Table} (h : t.Consistent)
    : verify t
      = match (requiredPairs t.op).find? fun p => !t.defines p.1 p.2 with
        | some (p, q) => .error (.missingCase t.op p q)
        | none => .ok () := by
  rw [verify, checkArms_eq_ok_iff.mpr h]
  rfl

theorem verify_eq_ok_iff {t : Table} : verify t = .ok () ↔ t.Verified := by
  by_cases hconsistent : t.Consistent
  · rw [verify_of_consistent hconsistent]
    split
    next p q hfind =>
      refine iff_of_false (by simp) fun h => ?_
      have hmissing := List.find?_some hfind
      rw [Table.defines_iff.mpr (h.required p q (List.mem_of_find?_eq_some hfind))] at hmissing
      cases hmissing
    next hfind =>
      refine iff_of_true rfl ⟨hconsistent, fun p q hpq => Table.defines_iff.mp ?_⟩
      simpa using List.find?_eq_none.mp hfind (p, q) hpq
  · refine iff_of_false (fun h => hconsistent ?_) fun h => hconsistent h.toConsistent
    rw [← checkArms_eq_ok_iff]
    cases harms : checkArms t.op t.arms with
    | ok _ => rfl
    | error e =>
        rw [verify, harms] at h
        cases h

/-- Verification decides whether a table is verified, and every error names a defect. -/
theorem verification_decides (t : Table)
    : (verify t = .ok () ↔ t.Verified) ∧ ∀ e, verify t = .error e → e.Truthful t := by
  refine ⟨verify_eq_ok_iff, fun e h => ?_⟩
  cases harms : checkArms t.op t.arms with
  | error e' =>
      rw [verify, harms] at h
      cases h
      exact truthful_of_checkArms harms
  | ok _ =>
      have hconsistent : t.Consistent := checkArms_eq_ok_iff.mp harms
      rw [verify_of_consistent hconsistent] at h
      split at h
      next p q hfind =>
        cases h
        refine ⟨rfl, List.mem_of_find?_eq_some hfind, fun hcontains => ?_, hconsistent⟩
        have hmissing := List.find?_some hfind
        rw [Table.defines_iff.mpr hcontains] at hmissing
        cases hmissing
      next => cases h

/-- A left pattern with two arms is reported although the arms have no case in common. -/
theorem verification_decides_split_arm
    : verify
          ⟨.order .less, [⟨.scalar .text, [⟨.scalar .text, .native⟩]⟩, ⟨.scalar .text, []⟩]⟩
        = .error (.duplicateArm (.order .less) (.scalar .text))
      ∧ (TableError.duplicateArm (.order .less) (.scalar .text)).Truthful
          ⟨.order .less, [⟨.scalar .text, [⟨.scalar .text, .native⟩]⟩, ⟨.scalar .text, []⟩]⟩ :=
  ⟨rfl, (verification_decides _).2 _ rfl⟩

end DynamicOps
