import DynamicOps.Proofs.Verification.Synthesized
import DynamicOps.Table.Edit

/-!
Single edits of verified tables. Verification goes through a table in order and stops at the first
problem, and after one edit of a verified table the edited entry is the only one that can have a
problem. So the verdict is that of the entry, wherever it stands.
-/

namespace DynamicOps

section CheckDistinct

variable {α : Type} {pattern : α → Pattern} {repeated : Pattern → TableError}
  {check : α → Except TableError Unit}

theorem nodup_map_append_singleton {xs : List α} {x : α} (hxs : (xs.map pattern).Nodup)
    (hx : pattern x ∉ xs.map pattern)
    : ((xs ++ [x]).map pattern).Nodup := by
  rw [List.map_append]
  exact List.nodup_append_comm.mp (List.nodup_cons.mpr ⟨hx, hxs⟩)

/-- An entry's pattern is not one of the others if patterns do not repeat. -/
theorem not_mem_of_nodup_map {xs ys : List α} {x : α}
    (h : ((xs ++ x :: ys).map pattern).Nodup)
    : pattern x ∉ (xs ++ ys).map pattern := by
  rw [List.map_append, List.map_cons, List.nodup_middle, List.nodup_cons] at h
  rw [List.map_append]
  exact h.1

/-- Entries that pass are only remembered by their patterns, by induction over these entries. -/
theorem checkDistinct_append_of_ok {seen : List Pattern} {xs ys : List α}
    (h : checkDistinct pattern repeated check seen xs = .ok ())
    : checkDistinct pattern repeated check seen (xs ++ ys)
      = checkDistinct pattern repeated check ((xs.map pattern).reverse ++ seen) ys := by
  induction xs generalizing seen with
  | nil => rfl
  | cons x xs ih =>
      obtain ⟨hfresh, _, hchecks⟩ := checkDistinct_eq_ok_iff.mp h
      have hseen : pattern x ∉ seen := hfresh x (by simp)
      rw [checkDistinct_cons_of_not_mem hseen, hchecks x (by simp)] at h
      rw [List.cons_append, checkDistinct_cons_of_not_mem hseen, hchecks x (by simp),
        List.map_cons, List.reverse_cons, List.append_assoc, List.singleton_append]
      exact ih h

/-- Among entries with different patterns that pass, the verdict is that of the one that may not. -/
theorem checkDistinct_eq_check {xs ys : List α} {x : α}
    (hnodup : ((xs ++ x :: ys).map pattern).Nodup)
    (hothers : ∀ y ∈ xs ++ ys, check y = .ok ())
    : checkDistinct pattern repeated check [] (xs ++ x :: ys) = check x := by
  cases hcheck : check x with
  | ok _ =>
      refine checkDistinct_eq_ok_iff.mpr ⟨by simp, hnodup, fun y hy => ?_⟩
      rcases List.mem_cons.mp (List.perm_middle.mem_iff.mp hy) with rfl | hy
      · exact hcheck
      · exact hothers y hy
  | error e =>
      have hxs : checkDistinct pattern repeated check [] xs = .ok () := by
        refine checkDistinct_eq_ok_iff.mpr ⟨by simp, ?_, ?_⟩
        · exact hnodup.sublist ((List.sublist_append_left xs _).map pattern)
        · exact fun y hy => hothers y (List.mem_append_left _ hy)
      have hfresh : pattern x ∉ (xs.map pattern).reverse ++ [] := by
        have hx := not_mem_of_nodup_map hnodup
        simp_all
      rw [checkDistinct_append_of_ok hxs, checkDistinct_cons_of_not_mem hfresh, hcheck]
      rfl

/-- After entries that pass, one whose pattern they have is reported for that. -/
theorem checkDistinct_eq_repeated {xs : List α} {x : α}
    (h : checkDistinct pattern repeated check [] xs = .ok ())
    (hx : pattern x ∈ xs.map pattern)
    : checkDistinct pattern repeated check [] (xs ++ [x]) = .error (repeated (pattern x)) := by
  rw [checkDistinct_append_of_ok h, checkDistinct, if_pos (by simpa using hx)]

end CheckDistinct

theorem checkCases_singleton (op : Operator) (p : Pattern) (case : Case)
    : checkCases op ⟨p, [case]⟩ = checkCase op p case.rhs case.body := by
  rw [checkCases, checkDistinct_cons_of_not_mem List.not_mem_nil]
  cases checkCase op p case.rhs case.body <;> rfl

namespace Table

variable {t : Table}

/-- A table with every required pair is only checked arm by arm. -/
theorem verify_of_contains (h : ∀ p q, (p, q) ∈ requiredPairs t.op → t.Contains p q)
    : verify t = checkArms t.op t.arms := by
  cases harms : checkArms t.op t.arms with
  | ok _ => exact verify_eq_ok_iff.mpr ⟨checkArms_eq_ok_iff.mp harms, h⟩
  | error e =>
      rw [verify, harms]
      rfl

theorem Consistent.checkCases_eq_ok {arm : Arm} (h : t.Consistent) (harm : arm ∈ t.arms)
    : checkCases t.op arm = .ok () :=
  checkDistinct_eq_ok_iff.mpr ⟨by simp, h.cases arm harm, h.accepted arm harm⟩

/-- A pair is in a table if it is in one arm or in the others. -/
theorem contains_append_cons_iff {op : Operator} {xs ys : List Arm} {arm : Arm} {p q : Pattern}
    : (⟨op, xs ++ arm :: ys⟩ : Table).Contains p q
      ↔ arm.lhs = p ∧ q ∈ arm.cases.map (·.rhs) ∨ (⟨op, xs ++ ys⟩ : Table).Contains p q := by
  simp only [Contains, List.mem_append, List.mem_cons, List.mem_map]
  constructor
  · rintro ⟨other, hother | rfl | hother, hp, hq⟩
    · exact .inr ⟨other, .inl hother, hp, hq⟩
    · exact .inl ⟨hp, hq⟩
    · exact .inr ⟨other, .inr hother, hp, hq⟩
  · rintro (⟨hp, hq⟩ | ⟨other, hother | hother, hp, hq⟩)
    · exact ⟨arm, .inr (.inl rfl), hp, hq⟩
    · exact ⟨other, .inl hother, hp, hq⟩
    · exact ⟨other, .inr (.inr hother), hp, hq⟩

/-- Where an arm of a verified table got other cases without losing a right pattern, the verdict is
that of the arm.
-/
theorem Verified.verify_of_replaced {xs ys : List Arm} {p : Pattern} {old new : List Case}
    (h : t.Verified) (harms : t.arms = xs ++ ⟨p, old⟩ :: ys)
    (hold : ∀ q ∈ old.map (·.rhs), q ∈ new.map (·.rhs))
    : verify ⟨t.op, xs ++ ⟨p, new⟩ :: ys⟩ = checkCases t.op ⟨p, new⟩ := by
  obtain ⟨op, arms⟩ := t
  subst harms
  rw [verify_of_contains]
  · refine checkDistinct_eq_check (by simpa using h.arms) fun arm harm => ?_
    refine h.checkCases_eq_ok ?_
    rcases List.mem_append.mp harm with harm | harm <;> simp [harm]
  · intro p' q hrequired
    have hcontains := h.required p' q hrequired
    rw [contains_append_cons_iff] at hcontains ⊢
    exact hcontains.imp_left fun ⟨hp, hq⟩ => ⟨hp, hold q hq⟩

/-- A verified table with one more arm is only checked arm by arm. -/
theorem Verified.verify_of_appended (h : t.Verified) (arm : Arm)
    : verify ⟨t.op, t.arms ++ [arm]⟩ = checkArms t.op (t.arms ++ [arm]) := by
  refine verify_of_contains fun p q hrequired => ?_
  rw [contains_append_cons_iff, List.append_nil]
  exact .inr (h.required p q hrequired)

/-- The pairs of a left pattern are those of its only arm. -/
theorem Consistent.contains_iff_of_mem (h : t.Consistent) {p q : Pattern} {cases : List Case}
    (harm : ⟨p, cases⟩ ∈ t.arms)
    : t.Contains p q ↔ q ∈ cases.map (·.rhs) := by
  rw [List.mem_map]
  constructor
  · rintro ⟨arm, hmem, hlhs, hcase⟩
    rwa [List.inj_on_of_nodup_map h.arms hmem harm hlhs] at hcase
  · intro hcase
    exact ⟨_, harm, rfl, hcase⟩

/-- A case after the cases of an arm is reported if it is repeated, or has the verdict of its check.
-/
theorem Verified.verify_appended (h : t.Verified) {xs ys : List Arm} {p : Pattern}
    {cases : List Case} (harms : t.arms = xs ++ ⟨p, cases⟩ :: ys) (case : Case)
    : verify ⟨t.op, xs ++ ⟨p, cases ++ [case]⟩ :: ys⟩
      = if case.rhs ∈ cases.map (·.rhs) then .error (.duplicateCase t.op p case.rhs)
        else checkCase t.op p case.rhs case.body := by
  have harm : ⟨p, cases⟩ ∈ t.arms := by simp [harms]
  rw [h.verify_of_replaced harms fun q hq => by simp_all]
  split
  next hmem => exact checkDistinct_eq_repeated (h.checkCases_eq_ok harm) hmem
  next hmem =>
    exact checkDistinct_eq_check (nodup_map_append_singleton (h.cases _ harm) hmem)
      (by simpa using h.accepted _ harm)

theorem Verified.verify_push (h : t.Verified) (p q : Pattern) (body : Body)
    : verify (t.push p q body)
      = if (t.get? p q).isSome then .error (.duplicateCase t.op p q)
        else checkCase t.op p q body := by
  by_cases hp : p ∈ t.arms.map (·.lhs)
  · obtain ⟨⟨p, cases⟩, harm, rfl⟩ := List.mem_map.mp hp
    obtain ⟨xs, ys, harms⟩ := List.append_of_mem harm
    have hxs : p ∉ xs.map (·.lhs) := by
      have hp := not_mem_of_nodup_map (harms ▸ h.arms)
      simp_all
    have hget : (t.get? p q).isSome = true ↔ q ∈ cases.map (·.rhs) :=
      h.isSome_get?_iff.trans (h.contains_iff_of_mem harm)
    rw [if_congr hget rfl rfl, push, harms, insertCase_append_cons ⟨q, body⟩ hxs]
    exact h.verify_appended harms ⟨q, body⟩
  · have hnone : ¬ (t.get? p q).isSome = true := by
      rw [h.isSome_get?_iff]
      rintro ⟨arm, harm, rfl, _⟩
      exact hp (List.mem_map_of_mem harm)
    have hothers (arm : Arm) (harm : arm ∈ t.arms ++ []) : checkCases t.op arm = .ok () :=
      h.checkCases_eq_ok (by simpa using harm)
    rw [if_neg hnone, push, insertCase_of_not_mem _ hp, h.verify_of_appended]
    exact (checkDistinct_eq_check (nodup_map_append_singleton h.arms hp) hothers).trans
      (checkCases_singleton t.op p ⟨q, body⟩)

theorem Verified.verify_copied_arm (h : t.Verified) {arm : Arm} (harm : arm ∈ t.arms)
    : verify ⟨t.op, t.arms ++ [arm]⟩ = .error (.duplicateArm t.op arm.lhs) := by
  rw [h.verify_of_appended]
  exact checkDistinct_eq_repeated (checkArms_eq_ok_iff.mpr h.toConsistent)
    (List.mem_map_of_mem harm)

theorem Verified.verify_changed_body (h : t.Verified) {xs ys : List Arm} {p : Pattern}
    {us vs : List Case} {case : Case} (harms : t.arms = xs ++ ⟨p, us ++ case :: vs⟩ :: ys)
    (body : Body)
    : verify ⟨t.op, xs ++ ⟨p, us ++ ⟨case.rhs, body⟩ :: vs⟩ :: ys⟩
      = checkCase t.op p case.rhs body := by
  have harm : ⟨p, us ++ case :: vs⟩ ∈ t.arms := by simp [harms]
  rw [h.verify_of_replaced harms (by simp)]
  refine checkDistinct_eq_check (by simpa using h.cases _ harm) fun other hother => ?_
  refine h.accepted _ harm other ?_
  rcases List.mem_append.mp hother with hother | hother <;> simp [hother]

/-- Without one of its cases a verified table is consistent and has all other pairs. -/
theorem Verified.consistent_removed (h : t.Verified) {xs ys : List Arm} {p : Pattern}
    {us vs : List Case} {case : Case} (harms : t.arms = xs ++ ⟨p, us ++ case :: vs⟩ :: ys)
    : (⟨t.op, xs ++ ⟨p, us ++ vs⟩ :: ys⟩ : Table).Consistent
      ∧ ∀ p' q,
          (⟨t.op, xs ++ ⟨p, us ++ vs⟩ :: ys⟩ : Table).Contains p' q
            ↔ t.Contains p' q ∧ ¬ (p' = p ∧ q = case.rhs) := by
  obtain ⟨op, arms⟩ := t
  subst harms
  have hkept {arm : Arm} (harm : arm ∈ xs ++ ⟨p, us ++ vs⟩ :: ys)
      : ∃ old ∈ xs ++ ⟨p, us ++ case :: vs⟩ :: ys,
          old.lhs = arm.lhs ∧ arm.cases.Sublist old.cases := by
    rcases List.mem_cons.mp (List.perm_middle.mem_iff.mp harm) with rfl | harm
    · exact ⟨⟨p, us ++ case :: vs⟩, by simp, rfl,
        (List.sublist_cons_self case vs).append_left us⟩
    · exact ⟨arm, List.perm_middle.mem_iff.mpr (List.mem_cons_of_mem _ harm), rfl, .refl _⟩
  refine ⟨⟨by simpa using h.arms, fun arm harm => ?_, fun arm harm c hc => ?_⟩, fun p' q => ?_⟩
  · obtain ⟨old, hold, -, hsublist⟩ := hkept harm
    exact (h.cases old hold).sublist (hsublist.map _)
  · obtain ⟨old, hold, hlhs, hsublist⟩ := hkept harm
    rw [← hlhs]
    exact h.accepted old hold c (hsublist.subset hc)
  · have hcase : case.rhs ∉ (us ++ vs).map (·.rhs) :=
      not_mem_of_nodup_map (h.cases ⟨p, us ++ case :: vs⟩ (by simp))
    have harm : p ∉ (xs ++ ys).map (·.lhs) := not_mem_of_nodup_map h.arms
    have hothers (hcontains : (⟨op, xs ++ ys⟩ : Table).Contains p' q) : p' ≠ p := by
      rintro rfl
      obtain ⟨other, hother, rfl, -⟩ := hcontains
      exact harm (List.mem_map_of_mem hother)
    have hold : q ∈ (us ++ case :: vs).map (·.rhs) ↔ q = case.rhs ∨ q ∈ (us ++ vs).map (·.rhs) :=
      (List.perm_middle.map _).mem_iff.trans List.mem_cons
    rw [contains_append_cons_iff, contains_append_cons_iff, hold]
    constructor
    · rintro (⟨rfl, hq⟩ | hcontains)
      · exact ⟨.inl ⟨rfl, .inr hq⟩, fun hpair => hcase (hpair.2 ▸ hq)⟩
      · exact ⟨.inr hcontains, fun hpair => hothers hcontains hpair.1⟩
    · rintro ⟨⟨rfl, rfl | hq⟩ | hcontains, hne⟩
      · exact absurd ⟨rfl, rfl⟩ hne
      · exact .inl ⟨rfl, hq⟩
      · exact .inr hcontains

theorem Verified.verify_removed_case (h : t.Verified) {xs ys : List Arm} {p : Pattern}
    {us vs : List Case} {case : Case} (harms : t.arms = xs ++ ⟨p, us ++ case :: vs⟩ :: ys)
    : verify ⟨t.op, xs ++ ⟨p, us ++ vs⟩ :: ys⟩
      = if (p, case.rhs) ∈ requiredPairs t.op then .error (.missingCase t.op p case.rhs)
        else .ok () := by
  obtain ⟨hconsistent, hcontains⟩ := h.consistent_removed harms
  split
  next hrequired =>
    rw [verify_of_consistent hconsistent]
    split
    next p' q hfind =>
      have hmissing : ¬ (⟨t.op, xs ++ ⟨p, us ++ vs⟩ :: ys⟩ : Table).Contains p' q := by
        rw [← defines_iff]
        simpa using List.find?_some hfind
      rw [hcontains, not_and_not_right] at hmissing
      obtain ⟨rfl, rfl⟩ := hmissing (h.required p' q (List.mem_of_find?_eq_some hfind))
      rfl
    next hfind =>
      have hdefines := List.find?_eq_none.mp hfind _ hrequired
      rw [Bool.not_eq_true, Bool.not_eq_false', defines_iff, hcontains] at hdefines
      exact absurd ⟨rfl, rfl⟩ hdefines.2
  next hoptional =>
    refine verify_eq_ok_iff.mpr ⟨hconsistent, fun p' q hrequired => ?_⟩
    rw [hcontains]
    refine ⟨h.required p' q hrequired, ?_⟩
    rintro ⟨rfl, rfl⟩
    exact hoptional hrequired

end Table

/-- A list around one of its positions, and what changes and removals there make of it. -/
theorem exists_split_of_getElem? {α : Type} {xs : List α} {i : Nat} {x : α}
    (h : xs[i]? = some x)
    : ∃ before after,
        xs = before ++ x :: after
        ∧ (∀ change, xs.modify i change = before ++ change x :: after)
        ∧ xs.eraseIdx i = before ++ after := by
  obtain ⟨hi, rfl⟩ := List.getElem?_eq_some_iff.mp h
  refine ⟨xs.take i, xs.drop (i + 1), ?_, fun change => ?_, ?_⟩
  · rw [List.getElem_cons_drop, List.take_append_drop]
  · exact List.modify_eq_take_cons_drop hi
  · exact List.eraseIdx_eq_take_drop_succ xs i

/-- Verification reports every edit of a table by what was edited: a pushed or copied entry as
repeated if it is, a removed case as missing if it was required, and otherwise the verdict is that
of the check of the new case.
-/
structure Table.ReportsEdits (t : Table) : Prop where
  push (p q : Pattern) (body : Body)
    : verify (Edit.apply t (.push p q body))
      = if (t.get? p q).isSome then .error (.duplicateCase t.op p q)
        else checkCase t.op p q body
  setBody {i j : Nat} {arm : Arm} {case : Case} (harm : t.arms[i]? = some arm)
    (hcase : arm.cases[j]? = some case) (body : Body)
    : verify (Edit.apply t (.setBody i j body)) = checkCase t.op arm.lhs case.rhs body
  removeCase {i j : Nat} {arm : Arm} {case : Case} (harm : t.arms[i]? = some arm)
    (hcase : arm.cases[j]? = some case)
    : verify (Edit.apply t (.removeCase i j))
      = if (arm.lhs, case.rhs) ∈ requiredPairs t.op then
          .error (.missingCase t.op arm.lhs case.rhs)
        else .ok ()
  copyArm {i : Nat} {arm : Arm} (harm : t.arms[i]? = some arm)
    : verify (Edit.apply t (.copyArm i)) = .error (.duplicateArm t.op arm.lhs)
  copyCase {i j : Nat} {arm : Arm} {case : Case} (harm : t.arms[i]? = some arm)
    (hcase : arm.cases[j]? = some case)
    : verify (Edit.apply t (.copyCase i j)) = .error (.duplicateCase t.op arm.lhs case.rhs)

/-- Verification reports every single edit of a verified table exactly. -/
theorem edits_reported {t : Table} (h : verify t = .ok ()) : t.ReportsEdits := by
  have hverified : t.Verified := verify_eq_ok_iff.mp h
  refine ⟨hverified.verify_push, ?_, ?_, ?_, ?_⟩
  · intro i j arm case harm hcase body
    obtain ⟨xs, ys, harms, hmodify, -⟩ := exists_split_of_getElem? harm
    obtain ⟨us, vs, hcases, hchange, -⟩ := exists_split_of_getElem? hcase
    obtain ⟨p, cases⟩ := arm
    subst hcases
    simp only [Edit.apply, Table.modifyCases, hmodify, hchange]
    exact hverified.verify_changed_body harms body
  · intro i j arm case harm hcase
    obtain ⟨xs, ys, harms, hmodify, -⟩ := exists_split_of_getElem? harm
    obtain ⟨us, vs, hcases, -, herase⟩ := exists_split_of_getElem? hcase
    obtain ⟨p, cases⟩ := arm
    subst hcases
    simp only [Edit.apply, Table.modifyCases, hmodify, herase]
    exact hverified.verify_removed_case harms
  · intro i arm harm
    simp only [Edit.apply, appendCopy, harm, Option.toList_some]
    exact hverified.verify_copied_arm (List.mem_of_getElem? harm)
  · intro i j arm case harm hcase
    obtain ⟨xs, ys, harms, hmodify, -⟩ := exists_split_of_getElem? harm
    obtain ⟨p, cases⟩ := arm
    have hmem : case.rhs ∈ cases.map (·.rhs) := List.mem_map_of_mem (List.mem_of_getElem? hcase)
    simp only [Edit.apply, Table.modifyCases, hmodify, appendCopy, hcase, Option.toList_some]
    rw [hverified.verify_appended harms, if_pos hmem]

/-- The table of addition without its case for texts passes, since that case is not required, and
with a second one for them it does not.
-/
theorem edits_reported_sum
    : verify (synthesize (.compute .add)) = .ok ()
      ∧ verify (Edit.apply (synthesize (.compute .add)) (.removeCase 12 0)) = .ok ()
      ∧ verify (Edit.apply (synthesize (.compute .add))
            (.push (.scalar .text) (.scalar .text) .native))
        = .error (.duplicateCase (.compute .add) (.scalar .text) (.scalar .text))
      ∧ verify (Edit.apply (synthesize (.compute .add)) (.copyArm 12))
        = .error (.duplicateArm (.compute .add) (.scalar .text)) := by
  have hverify : verify (synthesize (.compute .add)) = .ok () :=
    verify_eq_ok_iff.mpr (verified_synthesize _)
  have hreports : (synthesize (.compute .add)).ReportsEdits := edits_reported hverify
  have harm : (synthesize (.compute .add)).arms[12]?
      = some ⟨.scalar .text, [⟨.scalar .text, .concat⟩]⟩ := by
    decide +kernel
  refine ⟨hverify, ?_, ?_, hreports.copyArm harm⟩
  · rw [hreports.removeCase harm rfl]
    decide +kernel
  · rw [hreports.push, if_pos (by decide +kernel)]
    rfl

end DynamicOps
