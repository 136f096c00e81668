import DynamicOps.Proofs.Verification.Coverage
import DynamicOps.Operation.Body
import DynamicOps.Table.Edit

/-!
Which bodies verification admits. A verified table may have any body that its operator accepts for a
pair of patterns, and no other. In particular an ordering may compare two operands of one kind
natively or, if the lattice promotes that kind, after promoting both of them.
-/

namespace DynamicOps

open Synthesis

theorem accepts_of_get? {t : Table} {p q : Pattern} {body : Body} (h : verify t = .ok ())
    (hbody : t.get? p q = some body)
    : t.op.Accepts p q body := by
  obtain ⟨arm, harm, rfl, case, hcase, rfl, rfl⟩ := Table.exists_case_of_get? hbody
  rw [← checkCase_eq_ok_iff]
  exact (verify_eq_ok_iff.mp h).accepted arm harm case hcase

/-- Verification requires only pairs that the complete table has a cell for. -/
theorem mem_pairs_cells_of_required {op : Operator} {p q : Pattern}
    (h : (p, q) ∈ requiredPairs op)
    : (p, q) ∈ (cells op).map Cell.pair := by
  have hverify : verify (synthesize op) = .ok () := verify_eq_ok_iff.mpr (verified_synthesize op)
  have hrequired : (p, q) ∈ requiredPairs (synthesize op).op := by
    rwa [synthesize, Table.op_ofCells]
  exact Table.isSome_get?_ofCells.mp (isSome_get?_of_required hverify hrequired)

/-- The cells of an operator with another body for one pair. -/
def Synthesis.cellsWith (op : Operator) (p q : Pattern) (body : Body) : List Cell :=
  ⟨p, q, body⟩ :: (cells op).filter (!Cell.covers p q ·)

/-- A cell of the complete table may be given any body that the operator accepts for its pair. -/
theorem verified_cellsWith {op : Operator} {p q : Pattern} {body : Body}
    (h : op.Accepts p q body)
    : (Table.ofCells op (cellsWith op p q body)).Verified := by
  have hother {c : Cell} : Cell.covers p q c = false ↔ c.pair ≠ (p, q) := by
    simp [Cell.covers, Cell.pair]
  apply Table.verified_ofCells
  · rw [cellsWith, List.map_cons, List.nodup_cons]
    refine ⟨fun hmem => ?_, (nodup_pairs_cells op).sublist (List.filter_sublist.map _)⟩
    obtain ⟨c, hc, hpair⟩ := List.mem_map.mp hmem
    exact hother.mp (by simpa using (List.mem_filter.mp hc).2) hpair
  · intro c hc
    rcases List.mem_cons.mp hc with rfl | hc
    · exact h
    · exact accepts_of_mem_cells (List.mem_filter.mp hc).1
  · intro p' q' hrequired
    obtain ⟨c, hc, hpair⟩ := List.mem_map.mp (mem_pairs_cells_of_required hrequired)
    rw [cellsWith, List.map_cons, List.mem_cons]
    by_cases hpq : c.pair = (p, q)
    · exact .inl (hpair.symm.trans hpq)
    · refine .inr (List.mem_map.mpr ⟨c, List.mem_filter.mpr ⟨hc, ?_⟩, hpair⟩)
      simpa using hother.mpr hpq

/-- The bodies of a pair in verified tables are exactly those that the operator accepts for it. -/
theorem exists_verified_iff_accepts {op : Operator} {p q : Pattern} {body : Body}
    : (∃ t : Table, t.op = op ∧ verify t = .ok () ∧ t.get? p q = some body)
      ↔ op.Accepts p q body := by
  constructor
  · rintro ⟨t, rfl, hverify, hbody⟩
    exact accepts_of_get? hverify hbody
  · intro h
    refine ⟨Table.ofCells op (cellsWith op p q body), Table.op_ofCells op _,
      verify_eq_ok_iff.mpr (verified_cellsWith h), ?_⟩
    simp [Table.get?_ofCells, cellsWith]

/-- An ordering accepts two bodies within a kind: the native one, unless truth values would be
ordered, and promotion to the kind's domain, if it has one.
-/
theorem accepts_order_same_kind_iff {relation : Ordered} {k : Kind} {body : Body}
    : (Operator.order relation).Accepts (.scalar k) (.scalar k) body
      ↔ k ≠ .bool ∧ body = .native
        ∨ ∃ domain, promote (.order relation) k k = some domain ∧ body = .promote domain := by
  constructor
  · rintro ⟨hsupports, hagrees⟩
    cases hsupports with
    | promoted domain _ => exact .inr ⟨domain, hagrees, rfl⟩
    | order _ hk => exact .inl ⟨hk, rfl⟩
  · rintro (⟨hk, rfl⟩ | ⟨domain, hdomain, rfl⟩)
    · exact ⟨.order relation hk, trivial⟩
    · exact ⟨.promoted domain hdomain, hdomain⟩

theorem isSome_promote_order_same_kind_iff {relation : Ordered} {k : Kind}
    : (promote (.order relation) k k).isSome = true ↔ k.isArithmetic = true := by
  constructor
  · intro h
    obtain ⟨domain, hdomain⟩ := Option.isSome_iff_exists.mp h
    exact (domain_of_promote hdomain).1
  · intro h
    have harithmetic : (!k.isArithmetic || !k.isArithmetic) = false := by simp [h]
    simp only [promote, harithmetic, reduceCtorEq, if_false, Bool.false_eq_true, ← apply_ite some]
    rfl

/-- Verified tables of an ordering compare the operands of a kind natively exactly if the kind is
not promoted, which leaves texts and instants; truth values are not compared at all. Of every other
kind there are verified tables that promote both operands to the kind's domain instead.
-/
theorem same_kind_native_iff (relation : Ordered) (k : Kind)
    : ((∀ t : Table, t.op = .order relation → verify t = .ok () →
          ∀ body, t.get? (.scalar k) (.scalar k) = some body → body = .native)
        ↔ k.isArithmetic = false)
      ∧ ∀ body,
          (∃ t : Table, t.op = .order relation ∧ verify t = .ok ()
              ∧ t.get? (.scalar k) (.scalar k) = some body)
            ↔ k ≠ .bool ∧ body = .native
              ∨ ∃ domain, promote (.order relation) k k = some domain ∧ body = .promote domain := by
  have hbodies (body : Body)
      : (∃ t : Table, t.op = .order relation ∧ verify t = .ok ()
            ∧ t.get? (.scalar k) (.scalar k) = some body)
          ↔ k ≠ .bool ∧ body = .native
            ∨ ∃ domain, promote (.order relation) k k = some domain ∧ body = .promote domain :=
    exists_verified_iff_accepts.trans accepts_order_same_kind_iff
  refine ⟨?_, hbodies⟩
  constructor
  · intro h
    rw [← Bool.not_eq_true, ← isSome_promote_order_same_kind_iff]
    intro hsome
    obtain ⟨domain, hdomain⟩ := Option.isSome_iff_exists.mp hsome
    obtain ⟨t, hop, hverify, hbody⟩ := (hbodies _).mpr (.inr ⟨domain, hdomain, rfl⟩)
    cases h t hop hverify _ hbody
  · intro hk t hop hverify body hbody
    rcases (hbodies body).mp ⟨t, hop, hverify, hbody⟩ with ⟨_, hnative⟩ | ⟨domain, hdomain, _⟩
    · exact hnative
    · rw [(domain_of_promote hdomain).1] at hk
      cases hk

/-- The complete table of an ordering compares texts natively, as every verified table does. -/
theorem same_kind_native_iff_texts
    : verify (synthesize (.order .less)) = .ok ()
      ∧ (synthesize (.order .less)).get? (.scalar .text) (.scalar .text) = some .native := by
  have hverify : verify (synthesize (.order .less)) = .ok () :=
    verify_eq_ok_iff.mpr (verified_synthesize _)
  have hsome : ((synthesize (.order .less)).get? (.scalar .text) (.scalar .text)).isSome = true := by
    decide +kernel
  obtain ⟨body, hbody⟩ := Option.isSome_iff_exists.mp hsome
  obtain rfl : body = .native :=
    (same_kind_native_iff .less .text).1.mpr rfl _ (Table.op_ofCells _ _) hverify body hbody
  exact ⟨hverify, hbody⟩

/-- A table passes that compares the widest unsigned integers as signed words, which puts the
greatest one below the number one.
-/
theorem verified_with_wrapped_order
    : (Edit.apply (synthesize (.order .less)) (.setBody 4 4 (.promote .i64))).op = .order .less
      ∧ verify (Edit.apply (synthesize (.order .less)) (.setBody 4 4 (.promote .i64))) = .ok ()
      ∧ (Edit.apply (synthesize (.order .less)) (.setBody 4 4 (.promote .i64))).get?
          (.scalar (.int (.unsigned .w64))) (.scalar (.int (.unsigned .w64)))
        = some (.promote .i64)
      ∧ (Body.promote .i64).relate? Ordered.less.relation
          ⟨.int (.unsigned .w64), ⟨18446744073709551615, by decide, by decide⟩⟩
          ⟨.int (.unsigned .w64), ⟨1, by decide, by decide⟩⟩
        = some true := by
  decide +kernel

end DynamicOps
