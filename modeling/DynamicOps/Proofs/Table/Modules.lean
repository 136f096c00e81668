import DynamicOps.Proofs.Registry.Operators
import DynamicOps.Proofs.Rendering.Renderability
import DynamicOps.Proofs.Table.Grouping

/-!
Generated modules as functions of their settings. The last choice of operators decides which
functions a module holds: one for each of these operators in the order of first occurrence, around
the operator's case table. Every case table has a text, so that every module has one.
-/

namespace DynamicOps

/-- The table of every operator is verified and has a text. -/
theorem exists_caseText (op : Operator)
    : ∃ text, caseText op = .ok text ∧ (synthesize op).render? 1 = some text := by
  obtain ⟨text, htext⟩ := Option.isSome_iff_exists.mp (isSome_render?_synthesize op 1)
  refine ⟨text, ?_, htext⟩
  simp only [caseText, verify_eq_ok_iff.mpr (verified_synthesize op), htext]

namespace ModuleConfig

/-- A step in the configuration of a module. -/
inductive Setting
  | header (shown : Bool)
  | ops (requested : List Operator)

namespace Setting

/-- The choice of a header, if the step is one. -/
def header? : Setting → Option Bool
  | header shown => some shown
  | ops _ => none

/-- The choice of operators, if the step is one. -/
def ops? : Setting → Option (List Operator)
  | header _ => none
  | ops requested => some requested

end Setting

/-- The configuration after a step. -/
def set (config : ModuleConfig) : Setting → ModuleConfig
  | .header shown => config.withHeader shown
  | .ops requested => config.withOps requested

/-- The standard configuration after some steps. -/
def configured (settings : List Setting) : ModuleConfig :=
  settings.foldl set standard

/-- Whether there is a header: by the last choice, and without one there is. -/
def lastHeader (settings : List Setting) : Bool :=
  (settings.filterMap Setting.header?).getLast?.getD true

/-- The operators that were last chosen; without a choice, all operators. -/
def lastOps (settings : List Setting) : List Operator :=
  (settings.filterMap Setting.ops?).getLast?.getD Operator.all

/-- The last choice of a header stays, by induction over the steps from the last one. -/
theorem header_configured (settings : List Setting)
    : (configured settings).header = lastHeader settings := by
  induction settings using List.reverseRecOn with
  | nil => rfl
  | append_singleton settings setting ih =>
      rw [configured, List.foldl_append, ← configured, lastHeader, List.filterMap_append]
      cases setting with
      | header shown => simp [set, withHeader, Setting.header?]
      | ops requested => simpa [set, withOps, Setting.header?, lastHeader] using ih

/-- Of the last chosen operators the first occurrences stay, by induction over the steps from the
last one.
-/
theorem ops_configured (settings : List Setting)
    : (configured settings).ops = firstOccurrences (lastOps settings) := by
  induction settings using List.reverseRecOn with
  | nil => decide
  | append_singleton settings setting ih =>
      rw [configured, List.foldl_append, ← configured, lastOps, List.filterMap_append]
      cases setting with
      | header shown => simpa [set, withHeader, Setting.ops?, lastOps] using ih
      | ops requested => simp [set, withOps, Setting.ops?]

/-- The text of a module from the texts of the case tables. -/
def text (config : ModuleConfig) (table : Operator → String) : String :=
  (if config.header then moduleHeader else "") ++ modulePrelude
    ++ String.join (config.ops.map fun op => caseFunction op (table op))

theorem render_eq {table : Operator → String} (h : ∀ op, caseText op = .ok (table op))
    (config : ModuleConfig)
    : config.render = .ok (config.text table) := by
  have hfunction (op : Operator)
      : (caseText op).map (caseFunction op) = pure (caseFunction op (table op)) := by
    rw [h]
    rfl
  simp only [render, hfunction, List.mapM_pure]
  rfl

/-- The text is the function of an operator around the text of a case table. A comparison has a
truth value where a case matches, and arithmetic has a value or an error.
-/
inductive IsCaseFunction : Operator → String → String → Prop
  | equal {table : String}
    : IsCaseFunction .equal table
        ("\npub(crate) fn equal_cases(lhs: &Value, rhs: &Value) -> Option<bool> \x7b\n"
          ++ table ++ "\x7d\n")
  | order {relation : Ordered} {table : String}
    : IsCaseFunction (.order relation) table
        ("\npub(crate) fn " ++ (Operator.order relation).name
          ++ "_cases(lhs: &Value, rhs: &Value) -> Option<bool> \x7b\n" ++ table ++ "\x7d\n")
  | compute {o : Arithmetic} {table : String}
    : IsCaseFunction (.compute o) table
        ("\npub(crate) fn " ++ (Operator.compute o).name
          ++ "_cases(lhs: &Value, rhs: &Value) -> Option<Result<Value, OpError>> \x7b\n"
          ++ table ++ "\x7d\n")

/-- The text is a module of some operators: a header if there is to be one, the imports, and after
them a function for each of the operators in order.
-/
inductive IsModule (header : Bool) (ops : List Operator) (table : Operator → String)
    : String → Prop
  | mk {functions : List String}
    (hfunctions : List.Forall₂ (fun op => IsCaseFunction op (table op)) ops functions)
    : IsModule header ops table
        ((if header then "// @generated by dynval-synth. Do not edit.\n\n" else "")
          ++ ("use chrono::TimeDelta;\nuse dynval_core::Op;\n\n"
            ++ "use crate::engine::convert::\x7bnanos, remainder\x7d;\n"
            ++ "use crate::engine::\x7bArray, OpError, Value, equal\x7d;\n")
          ++ String.join functions)

theorem isCaseFunction_caseFunction (op : Operator) (table : String)
    : IsCaseFunction op table (caseFunction op table) := by
  cases op with
  | equal => exact .equal
  | order relation => cases relation <;> exact .order
  | compute o => cases o <;> exact .compute

theorem isModule_text (config : ModuleConfig) (table : Operator → String)
    : IsModule config.header config.ops table (config.text table) := by
  have hfunctions : List.Forall₂ (fun op => IsCaseFunction op (table op)) config.ops
      (config.ops.map fun op => caseFunction op (table op)) := by
    rw [List.forall₂_map_right_iff, List.forall₂_same]
    exact fun op _ => isCaseFunction_caseFunction op (table op)
  exact .mk hfunctions

/-- A module that holds further operators continues the text of the module. -/
theorem text_append {header : Bool} {ops more : List Operator} (table : Operator → String)
    : text ⟨header, ops ++ more⟩ table
      = text ⟨header, ops⟩ table
        ++ String.join (more.map fun op => caseFunction op (table op)) := by
  simp only [text, List.map_append, String.join_append, String.append_assoc]

/-- A module follows the steps of its configuration and the texts of the case tables. -/
structure Follows (settings : List Setting) (table : Operator → String) (config : ModuleConfig)
    : Prop where
  header : config.header = lastHeader settings
  ops : FirstOccurrencesOf (lastOps settings) config.ops
  distinct : (config.ops.map Operator.name).Nodup
  render : ∃ text, config.render = .ok text
    ∧ IsModule (lastHeader settings) config.ops table text

theorem follows_configured {table : Operator → String} (h : ∀ op, caseText op = .ok (table op))
    (settings : List Setting)
    : (configured settings).Follows settings table := by
  have hops : FirstOccurrencesOf (lastOps settings) (configured settings).ops := by
    rw [ops_configured]
    exact firstOccurrencesOf_firstOccurrences _
  exact {
    header := header_configured settings
    ops := hops
    distinct := hops.nodup.map Operator.name_injective
    render := ⟨_, render_eq h _, header_configured settings ▸ isModule_text _ table⟩
  }

theorem configured_append_ops (settings : List Setting) (ops : List Operator)
    : configured (settings ++ [.ops ops]) = ⟨lastHeader settings, firstOccurrences ops⟩ := by
  rw [configured, List.foldl_append, ← configured, ← header_configured]
  rfl

/-- Every run of steps configures a module with a text: the header as last chosen, the imports, and
a function around the case table of each last chosen operator, in the order of first occurrence; the
ten operators have the names listed here. So lists of operators with one such order give one text,
and further operators continue the text.
-/
theorem modules_follow_settings
    : (∀ op : Operator, op ∈ Operator.all)
      ∧ Operator.all.map Operator.name
          = ["equal", "less", "more", "less_or_equal", "more_or_equal", "add", "subtract",
              "multiply", "divide", "modulo"]
      ∧ ∃ table : Operator → String,
          (∀ op, caseText op = .ok (table op) ∧ (synthesize op).render? 1 = some (table op))
          ∧ (∀ settings, (configured settings).Follows settings table)
          ∧ (∀ settings xs ys zs, FirstOccurrencesOf xs zs → FirstOccurrencesOf ys zs →
              (configured (settings ++ [.ops xs])).render
                = (configured (settings ++ [.ops ys])).render)
          ∧ ∀ settings xs more, ∃ first rest,
              (configured (settings ++ [.ops xs])).render = .ok first
              ∧ (configured (settings ++ [.ops (xs ++ more)])).render = .ok (first ++ rest) := by
  choose table htable hrender using exists_caseText
  refine ⟨Operator.mem_all, rfl, table, fun op => ⟨htable op, hrender op⟩, follows_configured htable,
    ?_, ?_⟩
  · intro settings xs ys zs hxs hys
    have hx := (firstOccurrencesOf_firstOccurrences xs).eq hxs
    have hy := (firstOccurrencesOf_firstOccurrences ys).eq hys
    rw [configured_append_ops, configured_append_ops, hx, hy]
  · intro settings xs more
    obtain ⟨last, hlast⟩ := firstOccurrences_prefix xs more
    refine ⟨_, String.join (last.map fun op => caseFunction op (table op)), render_eq htable _, ?_⟩
    rw [render_eq htable, configured_append_ops, configured_append_ops, ← hlast, text_append]

/-- A repeated operator changes nothing, wherever it is repeated: there is one function for each of
two operators, and nothing else after the imports.
-/
theorem modules_follow_settings_repeated
    : FirstOccurrencesOf [.compute .subtract, .equal, .compute .subtract]
          [.compute .subtract, Operator.equal]
      ∧ (configured [.header false, .ops [.compute .subtract, .equal, .compute .subtract]]).render
        = (configured [.header false, .ops [.compute .subtract, .equal, .equal]]).render
      ∧ ∃ difference equality,
          caseText (.compute .subtract) = .ok difference
          ∧ caseText .equal = .ok equality
          ∧ (configured [.header false, .ops [.compute .subtract, .equal, .equal]]).render
            = .ok ("use chrono::TimeDelta;\nuse dynval_core::Op;\n\n"
                ++ "use crate::engine::convert::\x7bnanos, remainder\x7d;\n"
                ++ "use crate::engine::\x7bArray, OpError, Value, equal\x7d;\n"
                ++ "\npub(crate) fn subtract_cases"
                ++ "(lhs: &Value, rhs: &Value) -> Option<Result<Value, OpError>> \x7b\n"
                ++ difference ++ "\x7d\n"
                ++ "\npub(crate) fn equal_cases"
                ++ "(lhs: &Value, rhs: &Value) -> Option<bool> \x7b\n"
                ++ equality ++ "\x7d\n") := by
  have hfirst (ops : List Operator)
      (h : firstOccurrences ops = [.compute .subtract, .equal])
      : FirstOccurrencesOf ops [.compute .subtract, .equal] :=
    h ▸ firstOccurrencesOf_firstOccurrences ops
  obtain ⟨-, -, table, htable, hfollows, hsame, -⟩ := modules_follow_settings
  refine ⟨hfirst _ rfl, hsame [.header false] _ _ _ (hfirst _ rfl) (hfirst _ rfl), ?_⟩
  refine ⟨_, _, (htable _).1, (htable _).1, ?_⟩
  have hmodule := hfollows [.header false, .ops [.compute .subtract, .equal, .equal]]
  obtain ⟨text, hrender, htext⟩ := hmodule.render
  rw [hmodule.ops.eq (hfirst _ rfl)] at htext
  obtain ⟨_ | ⟨hdifference, _ | ⟨hequality, ⟨⟩⟩⟩⟩ := htext
  cases hdifference
  cases hequality
  have hopening : "\npub(crate) fn " ++ (Operator.compute .subtract).name
        ++ "_cases(lhs: &Value, rhs: &Value) -> Option<Result<Value, OpError>> \x7b\n"
      = "\npub(crate) fn subtract_cases"
        ++ "(lhs: &Value, rhs: &Value) -> Option<Result<Value, OpError>> \x7b\n" := rfl
  have hopening' : "\npub(crate) fn equal_cases(lhs: &Value, rhs: &Value) -> Option<bool> \x7b\n"
      = "\npub(crate) fn equal_cases"
        ++ "(lhs: &Value, rhs: &Value) -> Option<bool> \x7b\n" := rfl
  have hheader : lastHeader [.header false, .ops [.compute .subtract, .equal, .equal]] = false :=
    rfl
  rw [hrender, hopening, hopening', hheader]
  simp only [Bool.false_eq_true, if_false, String.join, List.foldl, String.empty_append,
    String.append_assoc]

end ModuleConfig

end DynamicOps
