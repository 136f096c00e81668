import DynamicOps.Proofs.Generated.Syntax

/-!
Generated code and rendered text. A body is rendered as the text of its expression, and the lines
of a table are those of its code, so that what the code means is what the text of the table means.
-/

namespace DynamicOps

@[simp]
theorem Kind.payloadName_i64 : i64.payloadName = "i64" :=
  rfl

@[simp]
theorem Kind.variant_i64 : i64.variant = "I64" :=
  rfl

/-- Results mapped one by one are the mapped results, by induction over the elements. -/
theorem mapM_map {α β γ : Type} (f : α → Option β) (g : β → γ) (xs : List α)
    : xs.mapM (fun x => (f x).map g) = (xs.mapM f).map (List.map g) := by
  induction xs with
  | nil => rfl
  | cons x xs ih =>
      rw [List.mapM_cons, List.mapM_cons, ih]
      cases f x <;> cases xs.mapM f <;> rfl

namespace Generated

open Expression

/-- An expression has a text when the characters agree. -/
theorem map_text_some {e : Expression} {t : String} (h : e.text.toList = t.toList)
    : (some e).map text = some t :=
  congrArg some (String.toList_inj.mp h)

theorem map_text_map {α : Type} {o : Option α} {e : α → Expression} {t : α → String}
    (h : ∀ x, (e x).text.toList = (t x).toList)
    : (o.map e).map text = o.map t := by
  rw [Option.map_map]
  exact congrArg (Option.map · o) (funext fun x => String.toList_inj.mp (h x))

theorem text_converted (k domain : Kind) (n : Name)
    : (converted k domain n).text = Rendering.convert k domain n.text := by
  rw [Rendering.convert, converted, ← String.toList_inj]
  split
  · split <;> simp [text, UnaryForm.pieces, Kind.payloadName]
  · split <;> simp [text, UnaryForm.pieces]

theorem name_wrapping? (op : Arithmetic)
    : Rendering.wrappingMethod op = (wrapping? op).map Method.name := by
  cases op <;> rfl

/-- Arithmetic is rendered as its expression, by cases on the domain. -/
theorem text_arithmetic? (op : Arithmetic) (domain : Kind) (x y : Expression)
    : (arithmetic? op domain x y).map text = Rendering.arithmetic op domain x.text y.text := by
  rw [Rendering.arithmetic, arithmetic?, name_wrapping?]
  simp only [Option.map_map]
  split
  · split
    · refine map_text_some ?_
      simp [text, UnaryForm.pieces, BinaryForm.pieces]
    · refine map_text_map fun method => ?_
      simp [text, UnaryForm.pieces, BinaryForm.pieces]
  split
  · split
    · rfl
    · refine map_text_some ?_
      simp [text, UnaryForm.pieces, BinaryForm.pieces, Kind.variant]
  split
  · refine map_text_map fun method => ?_
    simp [text, UnaryForm.pieces, BinaryForm.pieces, Kind.variant]
  · rfl

theorem text_rangeChecked (op : Operator) (k : Kind) (call : Expression)
    : (rangeChecked op k call).text = Rendering.rangeChecked op call.text k.variant := by
  rw [Rendering.rangeChecked, rangeChecked, ← String.toList_inj]
  simp [text, UnaryForm.pieces]

/-- The rendering of a body is the text of its expression, by cases on the body. -/
theorem text_expression? (op : Operator) (lhs rhs : Pattern) (b : Body)
    : (expression? op lhs rhs b).map text = Rendering.body op lhs rhs b := by
  cases b with
  | native =>
      rw [expression?, Rendering.body]
      split
      · refine map_text_some ?_
        simp [text, UnaryForm.pieces, BinaryForm.pieces, Name.text]
      · rfl
  | promote domain =>
      cases lhs with
      | refTo _ | array _ => rfl
      | scalar a =>
          cases rhs with
          | refTo _ | array _ => rfl
          | scalar b =>
              cases op with
              | compute o =>
                  simp only [expression?, Rendering.body, text_arithmetic?, text_converted]
                  rfl
              | equal | order _ =>
                  refine map_text_some ?_
                  simp [text, UnaryForm.pieces, BinaryForm.pieces, text_converted, Name.text]
  | concat =>
      refine map_text_some ?_
      simp [text, UnaryForm.pieces, BinaryForm.pieces, Name.text, Kind.variant]
  | shift =>
      rw [expression?, Rendering.body]
      split
      · rw [Option.map_some, text_rangeChecked]
        rfl
      split <;>
      · rw [Option.map_some, text_rangeChecked]
        rfl
  | elapsed =>
      refine map_text_some ?_
      simp [text, UnaryForm.pieces, BinaryForm.pieces, Name.text, Kind.variant, Method.name]
  | checked =>
      rw [expression?, Rendering.body]
      split <;>
      · rw [Option.map_some, text_rangeChecked]
        rfl
  | elementwise =>
      rcases rhs with _ | _ | _ | k
      case array.of =>
        refine map_text_some ?_
        simp [text, UnaryForm.pieces, BinaryForm.pieces, Name.text]
      all_goals rfl
  | swapped =>
      refine map_text_some ?_
      simp [text, UnaryForm.pieces, BinaryForm.pieces, Name.text]

theorem pieces_shape? (p : Pattern) (bind : String)
    : (shape? p).map (fun shape => String.join (shape.pieces bind))
      = Rendering.pattern bind p := by
  rcases p with k | k | _ | k
  case refTo => rfl
  all_goals
    refine congrArg some (String.toList_inj.mp ?_)
    simp [Shape.pieces]

/-- The lines of arms are those of every arm by itself, by induction over the arms. -/
theorem armLines_eq_flatten (level : Nat) (arms : List MatchArm)
    : armLines level arms = (arms.map fun arm => armLines level [arm]).flatten := by
  induction arms with
  | nil => rfl
  | cons arm arms ih =>
      rw [List.map_cons, List.flatten_cons, ← ih]
      simp [armLines]

/-- The lines of a case are those of its arm, by cases on whether it looks at a target. -/
theorem lines_caseArm? (op : Operator) (level : Nat) (lhs : Pattern) (c : Case)
    : (caseArm? op lhs c).map (fun arm => armLines level [arm])
      = Rendering.case op level lhs c := by
  rw [caseArm?, Rendering.case, ← text_expression?]
  cases expression? op lhs c.rhs c.body with
  | none => rfl
  | some e =>
      obtain ⟨rhs, b⟩ := c
      cases rhs with
      | refTo k =>
          have hopening : Shape.opening .ref (some .r) ++ "match "
              ++ (unary .target (name .r)).text ++ " \x7b"
                = "Value::Ref(r) => match r.target() \x7b" := rfl
          have hline : Shape.opening (.present k) (some .y) ++ e.text ++ ","
              = "Some(Value::" ++ k.variant ++ "(y)) => " ++ e.text ++ "," := by
            rw [← String.toList_inj]
            simp [Shape.opening, Shape.pieces, Name.text]
          simp only [Option.bind_eq_bind, Option.bind_some, Option.map_some, armLines, Code.lines,
            hopening, hline]
          rfl
      | scalar _ | array _ =>
          have hbind : (Option.map Name.text (if b = .swapped then none else some .y)).getD "_"
              = if b = .swapped then "_" else "y" := by
            split <;> rfl
          simp only [Option.bind_eq_bind, Option.bind_some, Option.map_some, ← pieces_shape?]
          cases shape? _ with
          | none => rfl
          | some shape => simp [armLines, Code.lines, Shape.opening, hbind]

/-- The lines of an arm are those of its match on the right operand. -/
theorem lines_arm? (op : Operator) (level : Nat) (a : Arm)
    : (arm? op a).map (fun arm => armLines level [arm]) = Rendering.arm op level a := by
  have hcase : Rendering.case op (level + 1) a.lhs
      = fun c => (caseArm? op a.lhs c).map fun arm => armLines (level + 1) [arm] :=
    funext fun c => (lines_caseArm? op (level + 1) a.lhs c).symm
  rw [arm?, Rendering.arm, hcase, mapM_map, ← pieces_shape?]
  cases shape? a.lhs with
  | none => rfl
  | some shape =>
      cases a.cases.mapM (caseArm? op a.lhs) with
      | none => rfl
      | some arms =>
          have hopening : shape.opening (some .x) ++ "match " ++ (name .rhs).text ++ " \x7b"
              = String.join (shape.pieces "x") ++ " => match rhs \x7b" := by
            rw [← String.toList_inj]
            simp [Shape.opening, Name.text, text]
          simp only [Option.bind_eq_bind, Option.bind_some, Option.map_some, armLines,
            Code.lines, hopening, armLines_eq_flatten (level + 1) arms, List.append_nil]
          rfl

end Generated

/-- The lines of a table are its code written out. -/
theorem Table.lines?_eq (t : Table) (level : Nat)
    : t.lines? level = t.code?.map (·.lines level "" "") := by
  have harm : Rendering.arm t.op (level + 1)
      = fun a => (Generated.arm? t.op a).map fun arm => Generated.armLines (level + 1) [arm] :=
    funext fun a => (Generated.lines_arm? t.op (level + 1) a).symm
  rw [lines?, code?, harm, mapM_map]
  cases t.arms.mapM (Generated.arm? t.op) with
  | none => rfl
  | some arms =>
      simp only [Option.bind_eq_bind, Option.bind_some, Option.map_some,
        Generated.Code.lines, Generated.armLines_eq_flatten (level + 1) arms]
      rfl

end DynamicOps
