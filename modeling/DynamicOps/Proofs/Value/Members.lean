import DynamicOps.Operation.Equality

/-!
Members of values: the items of lists and the values of records. A property of all values may be
assumed of their members, whatever their depth, so that it spreads to all that occurs in a value,
and a function of values without members extends to all values through their members.
-/

namespace DynamicOps.Value

variable {ε : Type}

/-- The items of a list and the values of a record's fields; other values have no members. -/
def members : Value ε → List (Value ε)
  | list items => items
  | record fields => fields.map Prod.snd
  | _ => []

@[simp]
theorem members_resolve (v : Value ε) : v.resolve.members = v.members := by
  rcases v with _ | _ | _ | _ | _ | (_ | _) | _ <;> rfl

/-- A member weighs less than the value it belongs to. -/
theorem weight_lt_of_mem_members {v w : Value ε} (h : w ∈ v.members) : w.weight < v.weight := by
  cases v with
  | nil | scalar _ | array _ | ref _ | extension _ => cases h
  | list items => exact Nat.lt_succ_of_le (weight_le_weightItems h)
  | record fields => exact Nat.lt_succ_of_le (weight_le_weightFields h)

/-- Every value has a property that values take over from their members, by strong induction on
the weight.
-/
@[elab_as_elim]
theorem members_induction {motive : Value ε → Prop}
    (step : ∀ v, (∀ w ∈ v.members, motive w) → motive v) (v : Value ε)
    : motive v := by
  induction h : v.weight using Nat.strongRecOn generalizing v with
  | ind n ih =>
      subst h
      exact step v fun w hw => ih w.weight (weight_lt_of_mem_members hw) w rfl

/-- A value occurs in another one if it is that value or occurs in one of its members. -/
inductive Occurs (u : Value ε) : Value ε → Prop
  | self : Occurs u u
  | member {v w : Value ε} (hv : v ∈ w.members) (h : Occurs u v) : Occurs u w

theorem occurs_iff {u v : Value ε} : u.Occurs v ↔ u = v ∨ ∃ w ∈ v.members, u.Occurs w := by
  constructor
  · intro h
    cases h with
    | self => exact .inl rfl
    | member hw h => exact .inr ⟨_, hw, h⟩
  · rintro (rfl | ⟨w, hw, h⟩)
    · exact .self
    · exact .member hw h

/-- What holds of all that occurs in a value holds of the value and of all that occurs in its
members.
-/
theorem forall_occurs_iff {P : Value ε → Prop} {v : Value ε}
    : (∀ u : Value ε, u.Occurs v → P u)
      ↔ P v ∧ ∀ w ∈ v.members, ∀ u : Value ε, u.Occurs w → P u := by
  constructor
  · intro h
    exact ⟨h v .self, fun w hw u hu => h u (.member hw hu)⟩
  · rintro ⟨hself, hmembers⟩ u hu
    cases hu with
    | self => exact hself
    | member hw hu => exact hmembers _ hw u hu

mutual

/-- A value with a function applied to what it holds below its lists and records. -/
def mapLeaves (f : Value ε → Value ε) : Value ε → Value ε
  | list items => list (mapItems f items)
  | record fields => record (mapFields f fields)
  | v => f v

/-- The items of a list with a function applied to what they hold. -/
def mapItems (f : Value ε → Value ε) : List (Value ε) → List (Value ε)
  | [] => []
  | item :: items => mapLeaves f item :: mapItems f items

/-- The fields of a record with a function applied to what their values hold. -/
def mapFields (f : Value ε → Value ε) : List (String × Value ε) → List (String × Value ε)
  | [] => []
  | (name, item) :: fields => (name, mapLeaves f item) :: mapFields f fields

end

variable (f : Value ε → Value ε)

theorem mapLeaves_list (items : List (Value ε))
    : mapLeaves f (list items) = list (items.map (mapLeaves f)) := by
  have hitems : mapItems f items = items.map (mapLeaves f) := by
    induction items with
    | nil => rfl
    | cons item items ih => rw [mapItems, ih, List.map_cons]
  rw [mapLeaves, hitems]

theorem mapLeaves_record (fields : List (String × Value ε))
    : mapLeaves f (record fields)
      = record (fields.map fun field => (field.1, mapLeaves f field.2)) := by
  have hfields : mapFields f fields
      = fields.map fun field => (field.1, mapLeaves f field.2) := by
    induction fields with
    | nil => rfl
    | cons field fields ih => rw [mapFields, ih, List.map_cons]
  rw [mapLeaves, hfields]

end DynamicOps.Value
