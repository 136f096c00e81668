import DynamicOps.Proofs.Equality.Level
import DynamicOps.Proofs.Value.Members

/-!
Transparency of references. A present reference is equal to the same values as its target, on
either side, and so are lists and records that hold references at any depth.
-/

namespace DynamicOps

variable {ε : Type}

namespace Value

/-- A value with the target in the place of every present reference, at any depth. -/
def strip (v : Value ε) : Value ε :=
  v.mapLeaves resolve

theorem strip_list (items : List (Value ε)) : (list items).strip = list (items.map strip) :=
  mapLeaves_list resolve items

theorem strip_record (fields : List (String × Value ε))
    : (record fields).strip = record (fields.map fun f => (f.1, f.2.strip)) :=
  mapLeaves_record resolve fields

end Value

variable [Extension ε]

namespace Verdict

/-- Items that are equal without their references make lists that are. -/
theorem holds_ofItems_strip {xs ys : List (Value ε)}
    (h : ∀ x ∈ xs, ∀ y ∈ ys, equal x y = equal x.strip y.strip)
    : (ofItems xs ys).holds = (ofItems (xs.map Value.strip) (ys.map Value.strip)).holds := by
  rw [Bool.eq_iff_iff, holds_ofItems, holds_ofItems, List.forall₂_map_left_iff,
    List.forall₂_map_right_iff]
  exact forall₂_congr_of_mem fun x hx y hy => by rw [h x hx y hy]

/-- Fields that are equal without their references make records that are. -/
theorem holds_ofFields_strip {xs ys : List (String × Value ε)}
    (h : ∀ f ∈ xs, ∀ g ∈ ys, equal f.2 g.2 = equal f.2.strip g.2.strip)
    : (ofFields xs ys).holds
      = (ofFields (xs.map fun f => (f.1, f.2.strip)) (ys.map fun g => (g.1, g.2.strip))).holds := by
  rw [Bool.eq_iff_iff, holds_ofFields, holds_ofFields, List.forall₂_map_left_iff,
    List.forall₂_map_right_iff]
  exact forall₂_congr_of_mem fun f hf g hg => by rw [h f hf g hg]

/-- Lists are equal to an array without their references alike, since lists and records never are
equal to one of its scalars.
-/
theorem holds_ofItems_toScalars (xs : List (Value ε)) (a : TypedArray)
    : (ofItems xs (a.toScalars.map .scalar)).holds
      = (ofItems (xs.map Value.strip) (a.toScalars.map .scalar)).holds := by
  have hscalar (v : Value ε) (s : Scalar)
      : equal v (.scalar s) = equal v.strip (.scalar s) := by
    rw [equal_eq_holds, equal_eq_holds]
    rcases v with _ | _ | _ | _ | _ | (_ | _) | _ <;> rfl
  rw [Bool.eq_iff_iff, holds_ofItems, holds_ofItems, List.forall₂_map_left_iff]
  refine forall₂_congr_of_mem fun x _ y hy => ?_
  obtain ⟨s, _, rfl⟩ := List.mem_map.mp hy
  rw [hscalar x s]

end Verdict

/-- Equality looks through references at every depth, by induction over the members of the left
value.
-/
theorem equal_strip (a b : Value ε) : equal a b = equal a.strip b.strip := by
  induction a using Value.members_induction generalizing b with
  | step a ih =>
      rw [equal_eq_holds a b, equal_eq_holds a.strip b.strip]
      rcases a with _ | _ | a | xs | xs | (_ | _) | _ <;>
        rcases b with _ | _ | b | ys | ys | (_ | _) | _
      case list.list =>
        rw [Value.strip_list, Value.strip_list]
        exact Verdict.holds_ofItems_strip fun x hx y _ => ih x hx y
      case list.array =>
        rw [Value.strip_list]
        exact Verdict.holds_ofItems_toScalars xs b
      case array.list =>
        rw [Value.strip_list]
        exact Verdict.holds_ofItems_toScalars ys a
      case record.record =>
        rw [Value.strip_record, Value.strip_record]
        exact Verdict.holds_ofFields_strip fun f hf g _ => ih f.2 (List.mem_map_of_mem hf) g.2
      -- The other shapes have no members, and references are resolved before they are compared.
      all_goals rfl

/-- References are transparent to equality: at every depth of two values, and beside any value at
all, whatever the kinds.
-/
theorem equality_transparent (a b : Value ε)
    : equal a b = equal a.strip b.strip
      ∧ ∀ s : Scalar,
          equal (.ref (.present s)) b = equal (.scalar s) b
          ∧ equal b (.ref (.present s)) = equal b (.scalar s) := by
  refine ⟨equal_strip a b, fun s => ⟨?_, ?_⟩⟩
  · rw [equal_strip (.ref (.present s)) b, equal_strip (.scalar s) b]
    rfl
  · rw [equal_strip b (.ref (.present s)), equal_strip b (.scalar s)]
    rfl

end DynamicOps
