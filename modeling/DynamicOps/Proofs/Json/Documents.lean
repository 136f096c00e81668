import DynamicOps.Json.Value
import DynamicOps.Proofs.Equality.Arrays
import DynamicOps.Proofs.Equality.Identity
import DynamicOps.Proofs.Time.DurationTexts

/-!
Documents of values. What JSON holds of a value is laid down form by form: null, truth values,
integers of any size, texts, arrays, and records as ordered fields, with references in the form of
their targets. Every value without floating numbers has one such document.
-/

namespace DynamicOps.Value

open Json (Tree)

variable {ε : Type}

/-- No scalar of the value, nor of what occurs in it, is a floating number. -/
def FloatFree (v : Value ε) : Prop :=
  ∀ u : Value ε, u.Occurs v → ∀ s ∈ u.scalars, s.kind.isFloat = false

theorem floatFree_iff {v : Value ε}
    : v.FloatFree
      ↔ (∀ s ∈ v.scalars, s.kind.isFloat = false) ∧ ∀ w ∈ v.members, w.FloatFree :=
  forall_occurs_iff

theorem floatFree_list {items : List (Value ε)}
    : (list items).FloatFree ↔ ∀ item ∈ items, item.FloatFree :=
  floatFree_iff.trans (and_iff_right fun _ hs => absurd hs List.not_mem_nil)

theorem floatFree_record {fields : List (String × Value ε)}
    : (record fields).FloatFree ↔ ∀ f ∈ fields, f.2.FloatFree :=
  floatFree_iff.trans
    ((and_iff_right fun _ hs => absurd hs List.not_mem_nil).trans List.forall_mem_map)

theorem floatFree_leaf {v : Value ε} (hmembers : v.members = [])
    (hscalars : ∀ s ∈ v.scalars, s.kind.isFloat = false)
    : v.FloatFree := by
  refine floatFree_iff.mpr ⟨hscalars, fun w hw => ?_⟩
  rw [hmembers] at hw
  cases hw

variable [Extension ε]

theorem tree_list (items : List (Value ε)) : (list items).tree = .array (items.map tree) := by
  have hitems : treeItems items = items.map tree := by
    induction items with
    | nil => rfl
    | cons item items ih => rw [treeItems, ih, List.map_cons]
  rw [tree, hitems]

theorem tree_record (fields : List (String × Value ε))
    : (record fields).tree = .object (fields.map fun f => (f.1, f.2.tree)) := by
  have hfields : treeFields fields = fields.map fun f => (f.1, f.2.tree) := by
    induction fields with
    | nil => rfl
    | cons field fields ih => rw [treeFields, ih, List.map_cons]
  rw [tree, hfields]

theorem tree_array (a : TypedArray)
    : (array a : Value ε).tree = (list a.values : Value ε).tree := by
  rw [tree_list, tree, TypedArray.values, List.map_map]
  rfl

/-- What a value without floating numbers is in JSON. -/
inductive HasDocument : Value ε → Tree → Prop
  | nil : HasDocument nil .null
  | nilReference (k : Kind) : HasDocument (ref (.nil k)) .null
  | reference {s : Scalar} {t : Tree} (h : HasDocument (scalar s) t)
    : HasDocument (ref (.present s)) t
  | truth (b : Bool) : HasDocument (scalar ⟨.bool, b⟩) (.bool b)
  | integer (k : IntKind) (n : (Kind.int k).Payload)
    : HasDocument (scalar ⟨.int k, n⟩) (.integer n.val)
  | text (s : String) : HasDocument (scalar ⟨.text, s⟩) (.string s)
  | instant (i : Instant)
    : HasDocument (scalar ⟨.instant, i⟩) (.string (String.ofList (Timestamp.render i)))
  | duration {d : Duration} {text : String} (h : d.HasText text)
    : HasDocument (scalar ⟨.duration, d⟩) (.string text)
  | integerLike {x : ε} {view : IntegerView} (h : Extension.integer? x = some view)
    : HasDocument (extension x) (.integer view.val)
  | unknown {x : ε} (h : Extension.integer? x = none)
    : HasDocument (extension x) (.string (Extension.typeName x))
  | array {a : TypedArray} {t : Tree} (h : HasDocument (list a.values) t)
    : HasDocument (array a) t
  | list {items : List (Value ε × Tree)} (h : ∀ item ∈ items, HasDocument item.1 item.2)
    : HasDocument (list (items.map Prod.fst)) (.array (items.map Prod.snd))
  | record {fields : List (String × Value ε × Tree)} (h : ∀ f ∈ fields, HasDocument f.2.1 f.2.2)
    : HasDocument (record (fields.map fun f => (f.1, f.2.1)))
        (.object (fields.map fun f => (f.1, f.2.2)))

/-- A value has no document besides its own, by induction over the forms. -/
theorem HasDocument.eq_tree {v : Value ε} {t : Tree} (h : v.HasDocument t) : t = v.tree := by
  induction h with
  | nil | nilReference _ | truth _ | integer _ _ | text _ | instant _ => rfl
  | duration h => exact congrArg Tree.string (Duration.hasText_iff.mp h)
  | reference _ ih => exact ih
  | integerLike h | unknown h => simp only [tree, h]
  | array _ ih => rw [tree_array, ih]
  | list _ ih =>
      rw [tree_list, List.map_map]
      exact congrArg Tree.array (List.map_congr_left ih)
  | record _ ih =>
      rw [tree_record, List.map_map]
      exact congrArg Tree.object (List.map_congr_left fun f hf => Prod.ext rfl (ih f hf))

theorem hasDocument_scalar {s : Scalar} (h : s.kind.isFloat = false)
    : HasDocument (scalar s : Value ε) s.tree := by
  obtain ⟨k | p | _ | _ | _ | _, x⟩ := s
  case int => exact .integer k x
  case float => cases h
  case bool => exact .truth x
  case text => exact .text x
  case instant => exact .instant x
  case duration => exact .duration (Duration.hasText_iff.mpr rfl)

/-- A list has its document if its items have theirs. -/
theorem hasDocument_list {items : List (Value ε)} (h : ∀ item ∈ items, item.HasDocument item.tree)
    : (list items).HasDocument (list items).tree := by
  have hpairs : ∀ p ∈ items.map fun item => (item, item.tree), HasDocument p.1 p.2 :=
    List.forall_mem_map.mpr h
  have hlist := HasDocument.list hpairs
  rwa [List.map_map, List.map_map, Function.comp_def, Function.comp_def, List.map_id',
    ← tree_list] at hlist

/-- A record has its document if the values of its fields have theirs. -/
theorem hasDocument_record {fields : List (String × Value ε)}
    (h : ∀ f ∈ fields, f.2.HasDocument f.2.tree)
    : (record fields).HasDocument (record fields).tree := by
  have htriples : ∀ g ∈ fields.map fun f => (f.1, f.2, f.2.tree), HasDocument g.2.1 g.2.2 :=
    List.forall_mem_map.mpr h
  have hrecord := HasDocument.record htriples
  rwa [List.map_map, List.map_map, Function.comp_def, Function.comp_def, List.map_id',
    ← tree_record] at hrecord

/-- A value without floating numbers has its document, by induction over the members. -/
theorem hasDocument_tree {v : Value ε} (h : v.FloatFree) : v.HasDocument v.tree := by
  induction v using members_induction with
  | step v ih =>
      obtain ⟨hscalars, hmembers⟩ := floatFree_iff.mp h
      have hmember : ∀ w ∈ v.members, w.HasDocument w.tree := fun w hw => ih w hw (hmembers w hw)
      cases v with
      | nil => exact .nil
      | scalar s => exact hasDocument_scalar (hscalars s (List.mem_singleton_self s))
      | array a =>
          rw [tree_array]
          refine .array (hasDocument_list fun item hitem => ?_)
          obtain ⟨s, hs, rfl⟩ := List.mem_map.mp hitem
          exact hasDocument_scalar (hscalars s hs)
      | list items => exact hasDocument_list hmember
      | record fields =>
          exact hasDocument_record fun f hf => hmember f.2 (List.mem_map_of_mem hf)
      | ref r =>
          cases r with
          | nil k => exact .nilReference k
          | present s =>
              exact .reference (hasDocument_scalar (hscalars s (List.mem_singleton_self s)))
      | extension x =>
          rw [tree]
          split
          next view hview => exact .integerLike hview
          next hview => exact .unknown hview

end DynamicOps.Value
