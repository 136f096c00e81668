import DynamicOps.Proofs.Json.Documents
import DynamicOps.Value.Labelled

/-!
Normal forms of values for JSON. A value in normal form is built from nil, scalars, and extensions
by lists and records: its homogeneous arrays are lists, its references are their targets, and its
nil references are nil. The JSON text of a value is that of its normal form.
-/

namespace DynamicOps

variable {ε : Type}

namespace Value

/-- The normal form of a value without members. -/
def normalLeaf : Value ε → Value ε
  | array a => list a.values
  | ref (.present s) => scalar s
  | ref (.nil _) => nil
  | v => v

/-- A value with its arrays and references in normal form, at any depth. -/
def normal (v : Value ε) : Value ε :=
  v.mapLeaves normalLeaf

/-- The value is neither a homogeneous array nor a reference. -/
def isPlain : Value ε → Bool
  | array _ => false
  | ref _ => false
  | _ => true

/-- No homogeneous array and no reference occurs in the value. -/
def Normal (v : Value ε) : Prop :=
  ∀ u : Value ε, u.Occurs v → u.isPlain = true

theorem normal_iff {v : Value ε} : v.Normal ↔ v.isPlain = true ∧ ∀ w ∈ v.members, w.Normal :=
  forall_occurs_iff

theorem normal_list (items : List (Value ε)) : (list items).normal = list (items.map normal) :=
  mapLeaves_list normalLeaf items

theorem normal_record (fields : List (String × Value ε))
    : (record fields).normal = record (fields.map fun f => (f.1, f.2.normal)) :=
  mapLeaves_record normalLeaf fields

/-- Nothing but lists, records, and leaves in normal form is left, by induction over the members.
The elements of an array are scalars.
-/
theorem normal_normal (v : Value ε) : v.normal.Normal := by
  have hscalar (s : Scalar) : (scalar s : Value ε).Normal :=
    normal_iff.mpr ⟨rfl, fun _ hw => absurd hw List.not_mem_nil⟩
  induction v using members_induction with
  | step v ih =>
      rw [normal_iff]
      cases v with
      | nil | extension _ => exact ⟨rfl, fun _ hw => absurd hw List.not_mem_nil⟩
      | scalar s => exact normal_iff.mp (hscalar s)
      | ref r => cases r <;> exact ⟨rfl, fun _ hw => absurd hw List.not_mem_nil⟩
      | array a =>
          refine ⟨rfl, fun w hw => ?_⟩
          obtain ⟨s, _, rfl⟩ := List.mem_map.mp hw
          exact hscalar s
      | list items =>
          rw [normal_list]
          refine ⟨rfl, fun w hw => ?_⟩
          obtain ⟨item, hitem, rfl⟩ := List.mem_map.mp hw
          exact ih item hitem
      | record fields =>
          rw [normal_record]
          refine ⟨rfl, fun w hw => ?_⟩
          obtain ⟨field, hfield, rfl⟩ := List.mem_map.mp hw
          obtain ⟨f, hf, rfl⟩ := List.mem_map.mp hfield
          exact ih f.2 (List.mem_map_of_mem hf)

/-- A value in normal form is its own normal form, by induction over the members. -/
theorem normal_eq_self {v : Value ε} (h : v.Normal) : v.normal = v := by
  induction v using members_induction with
  | step v ih =>
      obtain ⟨hplain, hmembers⟩ := normal_iff.mp h
      cases v with
      | nil | scalar _ | extension _ => rfl
      | array _ | ref _ => cases hplain
      | list items =>
          have hitems : items.map normal = items.map id :=
            List.map_congr_left fun item hitem => ih item hitem (hmembers item hitem)
          rw [normal_list, hitems, List.map_id]
      | record fields =>
          have hfields : (fields.map fun f => (f.1, f.2.normal)) = fields.map id := by
            refine List.map_congr_left fun f hf => ?_
            have hvalue : f.2 ∈ (record fields).members := List.mem_map_of_mem hf
            rw [ih f.2 hvalue (hmembers f.2 hvalue), id]
          rw [normal_record, hfields, List.map_id]

variable [Extension ε]

/-- A value has the document of its normal form, by induction over the members. -/
theorem tree_normal (v : Value ε) : v.normal.tree = v.tree := by
  induction v using members_induction with
  | step v ih =>
      cases v with
      | nil | scalar _ | extension _ => rfl
      | ref r => cases r <;> rfl
      | array a => exact (tree_array a).symm
      | list items =>
          have hitems : (items.map normal).map tree = items.map tree := by
            rw [List.map_map]
            exact List.map_congr_left ih
          rw [normal_list, tree_list, tree_list, hitems]
      | record fields =>
          have hfields : ((fields.map fun f => (f.1, f.2.normal)).map fun f => (f.1, f.2.tree))
              = fields.map fun f => (f.1, f.2.tree) := by
            rw [List.map_map]
            refine List.map_congr_left fun f hf => ?_
            exact Prod.ext rfl (ih f.2 (List.mem_map_of_mem hf))
          rw [normal_record, tree_record, tree_record, hfields]

/-- The JSON text of a value is that of its normal form, which holds no homogeneous arrays and no
references and is the value itself if that holds none. So two values with the same normal form have
the same text.
-/
theorem json_follows_normal_form (v : Value ε)
    : v.normal.Normal
      ∧ (v.Normal → v.normal = v)
      ∧ v.json = v.normal.json
      ∧ ∀ w : Value ε, v.normal = w.normal → v.json = w.json := by
  have hjson (u : Value ε) : u.json = u.normal.json := by rw [json, json, tree_normal]
  refine ⟨normal_normal v, normal_eq_self, hjson v, ?_⟩
  intro w hw
  rw [hjson v, hw, ← hjson w]

/-- An array and a nil reference in a record with a repeated name, beside a list of the same truth
values and a nil reference of another kind.
-/
theorem json_follows_normal_form_repeated_name
    : (record [("a", array ⟨.bool, [true, false]⟩), ("a", ref (.nil .text))]
          : Value Labelled).json
        = (record [("a", list [ofBool true, ref (.present (.ofBool false))]),
            ("a", ref (.nil .instant))] : Value Labelled).json
      ∧ (record [("a", list [ofBool true, ofBool false]), ("a", nil)] : Value Labelled).normal
        = record [("a", list [ofBool true, ofBool false]), ("a", nil)] := by
  obtain ⟨hnormal, -, -, hsame⟩ := json_follows_normal_form
    (record [("a", array ⟨.bool, [true, false]⟩), ("a", ref (.nil .text))] : Value Labelled)
  refine ⟨hsame _ rfl, ?_⟩
  exact (json_follows_normal_form (record _)).2.1 hnormal

end Value

end DynamicOps
