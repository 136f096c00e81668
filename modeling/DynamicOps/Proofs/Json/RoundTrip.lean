import DynamicOps.Proofs.Json.Decoding
import DynamicOps.Proofs.Json.Documents
import DynamicOps.Value.Labelled
import Mathlib.Tactic.SplitIfs

/-!
JSON texts decoded. The text of a document without decimal numbers spells it: strings with their
escapes, integers in decimal, and arrays and objects without blanks. So the JSON text of a value
without floating numbers is decoded as the document of the value.
-/

namespace DynamicOps

namespace Json

/-- A control character is given by its two hexadecimal digits. -/
theorem codeUnit?_control {n : Nat} (h : n < 32)
    : codeUnit? ['0', '0', Nat.digitChar (n / 16), Nat.digitChar (n % 16)] = some n := by
  revert n
  decide

/-- Every character is spelled as it is escaped, by cases on how that is. -/
theorem spellsCharacter_escape (c : Char) : SpellsCharacter (escape c) c := by
  unfold escape
  split_ifs with hquote hbackslash hback hfeed hline hreturn htab hcontrol
  · exact .letter (by rw [hquote]; rfl)
  · exact .letter (by rw [hbackslash]; rfl)
  · exact .letter (by rw [hback]; rfl)
  · exact .letter (by rw [hfeed]; rfl)
  · exact .letter (by rw [hline]; rfl)
  · exact .letter (by rw [hreturn]; rfl)
  · exact .letter (by rw [htab]; rfl)
  · exact .unit (codeUnit?_control hcontrol)
  · exact .plain hquote hbackslash (Nat.le_of_not_lt hcontrol)

theorem spellsCharacters_escape (cs : List Char) : SpellsCharacters (cs.flatMap escape) cs := by
  induction cs with
  | nil => exact .nil
  | cons c cs ih => exact .cons (spellsCharacter_escape c) ih

theorem spellsString_quote (s : String) : SpellsString (quote s) s :=
  ⟨_, spellsCharacters_escape s.toList, rfl⟩

theorem isWhole_digits (n : Nat) : isWhole (Text.digits n) = true := by
  have hdigits : isDigits (Text.digits n) = true := by
    have hempty : (Text.digits n).isEmpty = false := by simp [Text.digits_ne_nil]
    have hall : (Text.digits n).all Char.isDigit = true :=
      List.all_eq_true.mpr fun _ hc => Text.isDigit_of_mem_digits hc
    rw [isDigits, hempty, hall]
    rfl
  simp only [isWhole, hdigits, Bool.true_and, Bool.or_eq_true, decide_eq_true_eq]
  by_cases hzero : (Text.digits n).head? = some '0'
  · rw [Text.eq_zero_of_head?_digits hzero]
    exact .inr rfl
  · exact .inl hzero

/-- The number that an integer is in decimal. -/
def Numeral.ofInt (n : Int) : Numeral :=
  ⟨n < 0, Text.digits n.natAbs, [], [], isWhole_digits _, rfl, rfl⟩

theorem spells_integer (n : Int) : Spells (Text.integer n) (.integer n) := by
  have htext : (Numeral.ofInt n).text = Text.integer n := by
    simp only [Numeral.text, Numeral.ofInt, Text.integer, decide_eq_true_eq, List.append_nil]
    split <;> rfl
  have htree : (Numeral.ofInt n).tree = .integer n := by
    simp only [Numeral.tree, Numeral.ofInt, and_self, if_true, Text.valueOf_digits,
      decide_eq_true_eq]
    split <;> congr 1 <;> omega
  rw [← htext, ← htree]
  exact .atom (.number _)

theorem Tree.renderItems_eq (ts : List Tree)
    : renderItems ts = [','].intercalate (ts.map render) := by
  induction ts with
  | nil => rfl
  | cons t ts ih =>
      cases ts with
      | nil => simp [renderItems]
      | cons t' ts =>
          rw [List.map_cons, List.intercalate_cons_of_ne_nil (by simp), ← ih, List.append_assoc]
          rfl

theorem Tree.renderFields_eq (fields : List (String × Tree))
    : renderFields fields
      = [','].intercalate (fields.map fun f => quote f.1 ++ ':' :: f.2.render) := by
  induction fields with
  | nil => rfl
  | cons f fields ih =>
      cases fields with
      | nil => simp [renderFields]
      | cons f' fields =>
          rw [List.map_cons, List.intercalate_cons_of_ne_nil (by simp), ← ih, List.append_assoc]
          rfl

theorem blank_nil : Blank [] :=
  fun _ h => absurd h List.not_mem_nil

/-- The text of a document without blanks around it. -/
def Element.ofTree (t : Tree) : Element :=
  ⟨[], t.render, [], t, blank_nil, blank_nil⟩

/-- The text of a field without blanks in it. -/
def Member.ofField (field : String × Tree) : Member :=
  ⟨.ofTree field.2, [], quote field.1, [], field.1, blank_nil, spellsString_quote field.1, blank_nil⟩

/-- An array is spelled by its text if its elements are. -/
theorem spells_array {ts : List Tree} (h : ∀ t ∈ ts, Spells t.render t)
    : Spells (Tree.array ts).render (.array ts) := by
  have hrender : (Tree.array ts).render
      = '[' :: ([','].intercalate ((ts.map Element.ofTree).map Element.padded) ++ [']']) := by
    have hpadded : Element.padded ∘ Element.ofTree = Tree.render := by
      funext t
      simp [Element.padded, Element.ofTree]
    rw [List.map_map, hpadded, ← Tree.renderItems_eq, Tree.render, List.cons_append]
  have htrees : (ts.map Element.ofTree).map Element.tree = ts := by
    rw [List.map_map]
    exact List.map_id _
  cases ts with
  | nil => exact .emptyArray blank_nil
  | cons t ts =>
      have hspells : ∀ e ∈ (t :: ts).map Element.ofTree, Spells e.text e.tree := by
        intro e he
        obtain ⟨u, hu, rfl⟩ := List.mem_map.mp he
        exact h u hu
      have harray := Spells.array (by simp) hspells
      rwa [← hrender, htrees] at harray

/-- An object is spelled by its text if the values of its fields are. -/
theorem spells_object {fields : List (String × Tree)} (h : ∀ f ∈ fields, Spells f.2.render f.2)
    : Spells (Tree.object fields).render (.object fields) := by
  have hrender : (Tree.object fields).render
      = '\x7b' :: ([','].intercalate ((fields.map Member.ofField).map Member.padded)
          ++ ['\x7d']) := by
    have hpadded : Member.padded ∘ Member.ofField
        = fun f : String × Tree => quote f.1 ++ ':' :: f.2.render := by
      funext f
      simp [Member.padded, Member.ofField, Element.padded, Element.ofTree]
    rw [List.map_map, hpadded, ← Tree.renderFields_eq, Tree.render, List.cons_append]
  have hfields : ((fields.map Member.ofField).map fun m => (m.name, m.tree)) = fields := by
    rw [List.map_map]
    exact List.map_id _
  cases fields with
  | nil => exact .emptyObject blank_nil
  | cons f fields =>
      have hspells : ∀ m ∈ (f :: fields).map Member.ofField, Spells m.text m.tree := by
        intro m hm
        obtain ⟨g, hg, rfl⟩ := List.mem_map.mp hm
        exact h g hg
      have hobject := Spells.object (by simp) hspells
      rwa [← hrender, hfields] at hobject

end Json

open Json

variable {ε : Type} [Extension ε]

namespace Value

/-- The text of a value's document spells it, by induction over the forms. -/
theorem HasDocument.spells {v : Value ε} {t : Tree} (h : v.HasDocument t)
    : Spells t.render t := by
  induction h with
  | nil | nilReference _ => exact .atom .nullWord
  | reference _ ih | array _ ih => exact ih
  | truth b =>
      cases b
      · exact .atom .falseWord
      · exact .atom .trueWord
  | integer _ _ | integerLike _ => exact spells_integer _
  | text _ | instant _ | duration _ | unknown _ => exact .string (spellsString_quote _)
  | list _ ih => exact spells_array (List.forall_mem_map.mpr ih)
  | record _ ih => exact spells_object (List.forall_mem_map.mpr ih)

/-- The decoder reads exactly the texts that spell a document. The JSON text of every value
without floating numbers is read, as the document of the value and as nothing else.
-/
theorem json_decoded
    : (∀ (text : String) (t : Tree), decode? text = some t ↔ IsDocument text.toList t)
      ∧ ∀ v : Value ε, v.FloatFree →
          (∃ t, v.HasDocument t) ∧ ∀ t, decode? v.json = some t ↔ v.HasDocument t := by
  refine ⟨fun text t => decode?_eq_some_iff, fun v hv => ?_⟩
  have hdocument := hasDocument_tree hv
  have hread : decode? v.json = some v.tree := by
    refine decode?_eq_some_iff.mpr ⟨.ofTree v.tree, ?_, rfl, hdocument.spells⟩
    simp [Element.padded, Element.ofTree, json]
  refine ⟨⟨_, hdocument⟩, fun t => ?_⟩
  rw [hread, Option.some_inj]
  constructor
  · rintro rfl
    exact hdocument
  · exact fun h => h.eq_tree.symm

/-- A name that is a quote stands twice, over a text with a control character and a nil reference,
and over an integer beyond 64 bits.
-/
theorem json_decoded_repeated_quote
    : (record [("\"", list [scalar ⟨.text, "\\\x01\n"⟩, ref (.nil .f64)]),
          ("\"", extension ⟨"wide", "", some (.signed (-2 ^ 127))⟩)] : Value Labelled).FloatFree
      ∧ decode? (record [("\"", list [scalar ⟨.text, "\\\x01\n"⟩, ref (.nil .f64)]),
            ("\"", extension ⟨"wide", "", some (.signed (-2 ^ 127))⟩)] : Value Labelled).json
          = some (.object [("\"", .array [.string "\\\x01\n", .null]),
              ("\"", .integer (-2 ^ 127))]) := by
  have hfree : (record [("\"", list [scalar ⟨.text, "\\\x01\n"⟩, ref (.nil .f64)]),
      ("\"", extension ⟨"wide", "", some (.signed (-2 ^ 127))⟩)] : Value Labelled).FloatFree := by
    simp only [floatFree_record, floatFree_list, List.forall_mem_cons]
    refine ⟨⟨floatFree_leaf rfl ?_, floatFree_leaf rfl ?_, ?_⟩, floatFree_leaf rfl ?_, ?_⟩ <;>
      simp [scalars, Kind.isFloat]
  exact ⟨hfree, ((json_decoded.2 _ hfree).2 _).mpr (hasDocument_tree hfree)⟩

end Value

end DynamicOps
