import DynamicOps.Table.Synthesis

/-!
Looking up pairs of patterns in tables that were built cell by cell. A table gives a pair the body
of the first cell for it, so a look-up in an enumeration follows the enumeration: over blocks that
belong to one left pattern each, and over cells that belong to one right pattern each.
-/

namespace DynamicOps

/-- A pushed case answers for its pair unless an earlier one does, by induction over the arms. -/
theorem Table.get?_push (t : Table) (lhs rhs : Pattern) (body : Body) (p q : Pattern)
    : (t.push lhs rhs body).get? p q
      = (t.get? p q).or (if lhs = p ∧ rhs = q then some body else none) := by
  obtain ⟨op, arms⟩ := t
  simp only [Table.get?, Table.push]
  induction arms with
  | nil =>
      by_cases hl : lhs = p <;> by_cases hr : rhs = q <;> simp [insertCase, hl, hr]
  | cons arm arms ih =>
      simp only [insertCase]
      by_cases ha : arm.lhs = lhs
      · subst ha
        by_cases hp : arm.lhs = p
        · simp only [↓reduceIte, hp, decide_true, List.find?_cons_of_pos, Option.bind_some,
            List.find?_append, true_and]
          cases arm.cases.find? (·.rhs = q) <;> by_cases hr : rhs = q <;> simp [hr]
        · simp [hp]
      · rw [if_neg ha]
        by_cases hp : arm.lhs = p
        · have hl : lhs ≠ p := fun h => ha (hp.trans h.symm)
          simp [hp, hl]
        · simpa [hp] using ih

/-- A cell is for a pair of patterns. -/
def Cell.covers (p q : Pattern) (c : Cell) : Bool :=
  c.lhs = p && c.rhs = q

/-- The body of the first cell for a pair of patterns. -/
def Synthesis.bodyFor? (cells : List Cell) (p q : Pattern) : Option Body :=
  (cells.find? (Cell.covers p q)).map (·.body)

open Synthesis

/-- A table answers with the first cell it was built from, by induction over the cells. -/
theorem Table.get?_ofCells (op : Operator) (cells : List Cell) (p q : Pattern)
    : (Table.ofCells op cells).get? p q = bodyFor? cells p q := by
  suffices ∀ t : Table,
      (cells.foldl (fun t c => t.push c.lhs c.rhs c.body) t).get? p q
        = (t.get? p q).or (bodyFor? cells p q) by
    exact (this (.empty op)).trans (Option.none_or ..)
  induction cells with
  | nil => simp [bodyFor?]
  | cons c cells ih =>
      intro t
      rw [List.foldl_cons, ih, Table.get?_push, Option.or_assoc]
      congr 1
      by_cases h : c.lhs = p ∧ c.rhs = q
      · simp [bodyFor?, Cell.covers, h]
      · have hc : Cell.covers p q c = false := by simpa [Cell.covers] using h
        simp [bodyFor?, h, hc]

namespace Synthesis

@[simp]
theorem bodyFor?_nil (p q : Pattern) : bodyFor? [] p q = none :=
  rfl

@[simp]
theorem bodyFor?_cons (c : Cell) (cells : List Cell) (p q : Pattern)
    : bodyFor? (c :: cells) p q
      = if c.lhs = p ∧ c.rhs = q then some c.body else bodyFor? cells p q := by
  by_cases h : c.lhs = p ∧ c.rhs = q
  · simp [bodyFor?, Cell.covers, h]
  · have hc : Cell.covers p q c = false := by simpa [Cell.covers] using h
    simp [bodyFor?, h, hc]

@[simp]
theorem bodyFor?_append (cells more : List Cell) (p q : Pattern)
    : bodyFor? (cells ++ more) p q = (bodyFor? cells p q).or (bodyFor? more p q) := by
  simp [bodyFor?, List.find?_append, Option.map_or]

/-- Cells of other left patterns give nothing to a pair. -/
theorem bodyFor?_eq_none_of_lhs {cells : List Cell} {p q : Pattern}
    (h : ∀ c ∈ cells, c.lhs ≠ p)
    : bodyFor? cells p q = none := by
  simp only [bodyFor?, Option.map_eq_none_iff, List.find?_eq_none, Cell.covers]
  intro c hc
  simp [h c hc]

/-- Cells of other right patterns give nothing to a pair. -/
theorem bodyFor?_eq_none_of_rhs {cells : List Cell} {p q : Pattern}
    (h : ∀ c ∈ cells, c.rhs ≠ q)
    : bodyFor? cells p q = none := by
  simp only [bodyFor?, Option.map_eq_none_iff, List.find?_eq_none, Cell.covers]
  intro c hc
  simp [h c hc]

/-- Among blocks of one left pattern each, a pair is looked up in the block of its left pattern,
by induction over the kinds that the blocks belong to.
-/
theorem bodyFor?_flatMap {kinds : List Kind} {block : Kind → List Cell}
    (shape : Kind → Pattern) (hshape : ∀ {a b}, shape a = shape b → a = b)
    (hblock : ∀ a, ∀ c ∈ block a, c.lhs = shape a) (k : Kind) (q : Pattern)
    : bodyFor? (kinds.flatMap block) (shape k) q
      = if k ∈ kinds then bodyFor? (block k) (shape k) q else none := by
  induction kinds with
  | nil => simp
  | cons a kinds ih =>
      rw [List.flatMap_cons, bodyFor?_append, ih]
      by_cases ha : a = k
      · subst ha
        by_cases hk : a ∈ kinds <;> simp [hk]
      · have hnone : bodyFor? (block a) (shape k) q = none := by
          refine bodyFor?_eq_none_of_lhs fun c hc => ?_
          rw [hblock a c hc]
          exact fun h => ha (hshape h)
        simp [hnone, Ne.symm ha]

/-- Among cells of one right pattern each, a pair is looked up in the cell of its right pattern,
by induction over the kinds that the cells belong to.
-/
theorem bodyFor?_filterMap {kinds : List Kind} {cell : Kind → Option Cell} {p : Pattern}
    {shape : Kind → Pattern} (hshape : ∀ {a b}, shape a = shape b → a = b)
    (hcell : ∀ b c, cell b = some c → c.lhs = p ∧ c.rhs = shape b) (l : Kind)
    : bodyFor? (kinds.filterMap cell) p (shape l)
      = if l ∈ kinds then (cell l).map (·.body) else none := by
  induction kinds with
  | nil => simp
  | cons b kinds ih =>
      cases hb : cell b with
      | none =>
          rw [List.filterMap_cons_none hb, ih]
          by_cases hl : l = b
          · subst hl
            simp [hb]
          · simp [hl]
      | some c =>
          obtain ⟨hlhs, hrhs⟩ := hcell b c hb
          rw [List.filterMap_cons_some hb, bodyFor?_cons, ih, hlhs, hrhs]
          by_cases hl : l = b
          · subst hl
            simp [hb]
          · have hne : shape b ≠ shape l := fun h => hl (hshape h).symm
            simp [hl, hne]

end Synthesis

end DynamicOps
