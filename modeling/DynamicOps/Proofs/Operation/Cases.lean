import DynamicOps.Operation.Application
import DynamicOps.Proofs.Verification.Synthesized

/-!
The cases of orderings and arithmetic, read off the enumeration of their tables. Every ordering has
the scalar cases of equality except for truth values, whatever the relation. Arithmetic promotes the
pairwise kinds of its operator, and adds and subtracts texts, instants, and durations by bodies of
their own.
-/

namespace DynamicOps

open Synthesis

/-- The synthesized table of an operator holds the enumerated cells and no others, since no two of
them are for one pair.
-/
theorem get?_synthesize_eq_some_iff {op : Operator} {p q : Pattern} {body : Body}
    : (synthesize op).get? p q = some body ↔ (⟨p, q, body⟩ : Cell) ∈ cells op := by
  rw [synthesize, Table.get?_ofCells, bodyFor?, Option.map_eq_some_iff]
  have hcovers {c : Cell} (h : (cells op).find? (Cell.covers p q) = some c)
      : c ∈ cells op ∧ c.lhs = p ∧ c.rhs = q := by
    refine ⟨List.mem_of_find?_eq_some h, ?_⟩
    simpa [Cell.covers] using List.find?_some h
  constructor
  · rintro ⟨⟨_, _, _⟩, hfind, rfl⟩
    obtain ⟨hmem, rfl, rfl⟩ := hcovers hfind
    exact hmem
  · intro hmem
    have hsome : ((cells op).find? (Cell.covers p q)).isSome = true :=
      List.find?_isSome.mpr ⟨_, hmem, by simp [Cell.covers]⟩
    obtain ⟨c, hfind⟩ := Option.isSome_iff_exists.mp hsome
    obtain ⟨hc, hlhs, hrhs⟩ := hcovers hfind
    refine ⟨c, hfind, ?_⟩
    have hpair : c.pair = (p, q) := Prod.ext hlhs hrhs
    rw [List.inj_on_of_nodup_map (nodup_pairs_cells op) hc hmem hpair]

/-- The cells of every operator but equality are for two scalars. -/
theorem exists_kinds_of_mem_cells {op : Operator} {c : Cell} (hop : op ≠ .equal)
    (h : c ∈ cells op)
    : ∃ k l, c.lhs = .scalar k ∧ c.rhs = .scalar l := by
  rw [cells_of_ne_equal hop] at h
  rcases List.mem_append.mp h with h | h
  · obtain ⟨k, _, l, _, _, _, rfl⟩ := mem_pairwise_iff.mp h
    exact ⟨k, l, rfl, rfl⟩
  · cases op with
    | equal => exact absurd rfl hop
    | order relation =>
        obtain ⟨k, _, rfl⟩ := List.mem_map.mp h
        exact ⟨k, k, rfl, rfl⟩
    | compute o =>
        cases o <;> simp only [distinguished, List.mem_cons, List.not_mem_nil, or_false] at h
        case add => rcases h with rfl | rfl | rfl | rfl <;> exact ⟨_, _, rfl, rfl⟩
        case subtract => rcases h with rfl | rfl | rfl <;> exact ⟨_, _, rfl, rfl⟩

/-- What an ordering does with two kinds: what equality does with them, except that truth values
have no order.
-/
def orderingBody? (k l : Kind) : Option Body :=
  if k = .bool then none else equalityBody? (.scalar k) (.scalar l)

/-- The lattice has one domain for all comparisons. -/
theorem promote_order (relation : Ordered) (k l : Kind)
    : promote (.order relation) k l = promote .equal k l :=
  rfl

theorem exists_promote_equal {k l : Kind} (hk : k.isNumeric = true) (hl : l.isNumeric = true)
    : ∃ domain, promote .equal k l = some domain := by
  have harithmetic : (!k.isArithmetic || !l.isArithmetic) = false := by
    simp [Kind.isArithmetic, hk, hl]
  have hequal (o : Arithmetic) : (Operator.equal = .compute o) = False := by simp
  simp only [promote, harithmetic, hequal, if_false, Bool.false_eq_true, ← apply_ite some]
  exact ⟨_, rfl⟩

theorem mem_pairwise_order_iff {relation : Ordered} {k l : Kind} {body : Body}
    : (⟨.scalar k, .scalar l, body⟩ : Cell) ∈ pairwise (.order relation)
      ↔ k.isNumeric = true ∧ l.isNumeric = true ∧ equalityBody? (.scalar k) (.scalar l) = some body
    := by
  have hkinds (k : Kind) : k ∈ (Operator.order relation).pairwiseKinds ↔ k.isNumeric = true :=
    Registry.mem_numeric k
  simp only [mem_pairwise_iff, hkinds, promote_order, scalars, Cell.mk.injEq, Pattern.scalar.injEq]
  constructor
  · rintro ⟨_, hk, _, hl, domain, hdomain, rfl, rfl, rfl⟩
    refine ⟨hk, hl, ?_⟩
    simp only [equalityBody?, hk, hl, hdomain]
    split <;> simp_all [Operator.isComparison]
  · rintro ⟨hk, hl, hbody⟩
    obtain ⟨domain, hdomain⟩ := exists_promote_equal hk hl
    refine ⟨k, hk, l, hl, domain, hdomain, rfl, rfl, ?_⟩
    by_cases hkl : k = l
    · simpa [equalityBody?, hkl, Operator.isComparison] using hbody
    · simpa [equalityBody?, hkl, hk, hl, hdomain] using hbody

theorem mem_distinguished_order_iff {relation : Ordered} {k l : Kind} {body : Body}
    : (⟨.scalar k, .scalar l, body⟩ : Cell) ∈ distinguished (.order relation)
      ↔ k.isNumeric = false ∧ k ≠ .bool ∧ k = l ∧ .native = body := by
  simp only [distinguished, List.mem_map, List.mem_filter, Registry.mem_distinguished, scalars,
    Cell.mk.injEq, Pattern.scalar.injEq, decide_eq_true_eq]
  constructor
  · rintro ⟨_, ⟨hnumeric, hbool⟩, rfl, rfl, rfl⟩
    exact ⟨hnumeric, hbool, rfl, rfl⟩
  · rintro ⟨hnumeric, hbool, rfl, rfl⟩
    exact ⟨k, ⟨hnumeric, hbool⟩, rfl, rfl, rfl⟩

/-- The tables of all orderings have the same cases, by cases on the two parts of their cells. -/
theorem get?_synthesize_order (relation : Ordered) (k l : Kind)
    : (synthesize (.order relation)).get? (.scalar k) (.scalar l) = orderingBody? k l := by
  ext body
  rw [get?_synthesize_eq_some_iff, cells_of_ne_equal (by simp), List.mem_append,
    mem_pairwise_order_iff, mem_distinguished_order_iff]
  cases hk : k.isNumeric with
  | true =>
      have hbool : k ≠ .bool := by
        rintro rfl
        cases hk
      simp only [orderingBody?, if_neg hbool, Bool.true_eq_false, false_and, or_false, true_and]
      cases hl : l.isNumeric with
      | true => simp
      | false =>
          have hkl : k ≠ l := by
            rintro rfl
            exact absurd (hk.symm.trans hl) (by simp)
          simp [equalityBody?, hkl, hl]
  | false =>
      by_cases hbool : k = .bool
      · simp [orderingBody?, hbool]
      · by_cases hkl : k = l
        · have hlbool : l ≠ .bool := hkl ▸ hbool
          simp [orderingBody?, equalityBody?, hlbool, hkl]
        · simp [orderingBody?, equalityBody?, hbool, hkl, hk]

/-- The body that an arithmetic operator has for two kinds: promotion for its pairwise kinds, and
for texts, instants, and durations what they are added and subtracted by.
-/
inductive Arithmetic.Performs : Arithmetic → Kind → Kind → Body → Prop
  | promoted {o : Arithmetic} {k l domain : Kind} (hk : k ∈ (Operator.compute o).pairwiseKinds)
    (hl : l ∈ (Operator.compute o).pairwiseKinds) (h : promote (.compute o) k l = some domain)
    : Performs o k l (.promote domain)
  | concat : Performs .add .text .text .concat
  | shift {o : Arithmetic} (h : o = .add ∨ o = .subtract) : Performs o .instant .duration .shift
  | shiftBy : Performs .add .duration .instant .shift
  | checked {o : Arithmetic} (h : o = .add ∨ o = .subtract)
    : Performs o .duration .duration .checked
  | elapsed : Performs .subtract .instant .instant .elapsed

/-- The table of an arithmetic operator has the bodies that the operator performs, by cases on the
two parts of its cells.
-/
theorem get?_synthesize_compute_eq_some_iff {o : Arithmetic} {k l : Kind} {body : Body}
    : (synthesize (.compute o)).get? (.scalar k) (.scalar l) = some body ↔ o.Performs k l body := by
  rw [get?_synthesize_eq_some_iff, cells_of_ne_equal (by simp), List.mem_append]
  constructor
  · rintro (h | h)
    · obtain ⟨_, hk, _, hl, domain, hdomain, hcell⟩ := mem_pairwise_iff.mp h
      cases hcell
      exact .promoted hk hl hdomain
    · cases o <;> simp only [distinguished, scalars, List.mem_cons, List.not_mem_nil, or_false,
        Cell.mk.injEq, Pattern.scalar.injEq] at h
      case add =>
        rcases h with ⟨rfl, rfl, rfl⟩ | ⟨rfl, rfl, rfl⟩ | ⟨rfl, rfl, rfl⟩ | ⟨rfl, rfl, rfl⟩
        · exact .concat
        · exact .shift (by simp)
        · exact .checked (by simp)
        · exact .shiftBy
      case subtract =>
        rcases h with ⟨rfl, rfl, rfl⟩ | ⟨rfl, rfl, rfl⟩ | ⟨rfl, rfl, rfl⟩
        · exact .elapsed
        · exact .shift (by simp)
        · exact .checked (by simp)
  · intro h
    cases h with
    | promoted hk hl hdomain =>
        exact .inl (mem_pairwise_iff.mpr ⟨k, hk, l, hl, _, hdomain, rfl⟩)
    | concat | shiftBy | elapsed => exact .inr (by simp [distinguished, scalars])
    | shift ho | checked ho =>
        rcases ho with rfl | rfl <;> exact .inr (by simp [distinguished, scalars])

variable {ε : Type}

/-- Apart from equality, tables select cases for scalars only. -/
theorem select?_of_ne_equal {op : Operator} (hop : op ≠ .equal) (lhs rhs : Value ε)
    : op.table.select? lhs rhs
      = lhs.scalar?.bind fun s => rhs.scalar?.bind fun t =>
          (synthesize op).get? (.scalar s.kind) (.scalar t.kind) := by
  have hnone {p q : Pattern} (h : ∀ k l, ¬ (p = .scalar k ∧ q = .scalar l))
      : (synthesize op).get? p q = none := by
    rw [Option.eq_none_iff_forall_ne_some]
    intro body hbody
    obtain ⟨k, l, hp, hq⟩ :=
      exists_kinds_of_mem_cells hop (get?_synthesize_eq_some_iff.mp hbody)
    exact h k l ⟨hp, hq⟩
  rw [Operator.table_eq, Table.select?_eq]
  rcases lhs with _ | s | a | xs | xs | (_ | s) | x
  case scalar =>
    rcases rhs with _ | t | b | ys | ys | (_ | t) | y
    case scalar => rfl
    all_goals first | rfl | exact hnone (by simp)
  all_goals
    cases rhs.pattern? <;> first | rfl | simp [Value.pattern?, Value.scalar?, hnone]

/-- An ordering relates two scalars by the body for their kinds, and nothing else. -/
theorem ordered?_eq (relation : Ordered) (lhs rhs : Value ε)
    : ordered? relation lhs rhs
      = lhs.scalar?.bind fun s => rhs.scalar?.bind fun t =>
          (orderingBody? s.kind t.kind).bind fun body => body.relate? relation.relation s t := by
  rw [ordered?, selected?, select?_of_ne_equal (by simp)]
  rcases lhs with _ | s | _ | _ | _ | _ | _ <;> rcases rhs with _ | t | _ | _ | _ | _ | _
  case scalar.scalar =>
    simp [Value.scalar?, get?_synthesize_order, Option.bind_assoc]
  all_goals rfl

/-- Arithmetic has a result on two scalars that it performs a body on, and on nothing else. -/
theorem computed?_eq_some_iff {o : Arithmetic} {lhs rhs : Value ε}
    {result : Except OpError Scalar}
    : computed? o lhs rhs = some result
      ↔ ∃ s t body, lhs = .scalar s ∧ rhs = .scalar t ∧ o.Performs s.kind t.kind body
          ∧ body.compute? o s t = some result := by
  rw [computed?, selected?, select?_of_ne_equal (by simp)]
  rcases lhs with _ | s | _ | _ | _ | _ | _ <;> rcases rhs with _ | t | _ | _ | _ | _ | _
  case scalar.scalar =>
    simp [Value.scalar?, get?_synthesize_compute_eq_some_iff, Option.bind_eq_some_iff]
  all_goals simp [Value.scalar?]

section Results

variable [Extension ε] {lhs rhs : Value ε}

theorem apply_order_of_some {relation : Ordered} {b : Bool}
    (h : ordered? relation lhs rhs = some b)
    : apply (.order relation) lhs rhs = .ok (.ofBool b) := by
  simp only [apply, dispatch, h]

theorem apply_order_of_none {relation : Ordered}
    (h : ordered? relation lhs rhs = none)
    : apply (.order relation) lhs rhs
      = .error (.invalid (.order relation) lhs.typeName rhs.typeName) := by
  simp only [apply, dispatch, h]
  rfl

theorem apply_compute_of_some {o : Arithmetic} {result : Except OpError Scalar}
    (h : computed? o lhs rhs = some result)
    : apply (.compute o) lhs rhs = result.map .scalar := by
  simp only [apply, dispatch, h]

theorem apply_compute_of_none {o : Arithmetic} (h : computed? o lhs rhs = none)
    : apply (.compute o) lhs rhs = .error (.invalid (.compute o) lhs.typeName rhs.typeName) := by
  simp only [apply, dispatch, h]
  rfl

/-- A body that arithmetic performs on two scalars gives its result. -/
theorem apply_compute_of_performs {o : Arithmetic} {s t : Scalar} {body : Body}
    {result : Except OpError Scalar} (hbody : o.Performs s.kind t.kind body)
    (h : body.compute? o s t = some result)
    : apply (.compute o) (.scalar s : Value ε) (.scalar t) = result.map .scalar :=
  apply_compute_of_some (computed?_eq_some_iff.mpr ⟨s, t, body, rfl, rfl, hbody, h⟩)

end Results

end DynamicOps
