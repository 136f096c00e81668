import DynamicOps.Proofs.Rendering.Expressions
import DynamicOps.Proofs.Rendering.Renderability
import Mathlib.Algebra.Ring.Nat
import Mathlib.Data.List.Forall2

/-!
The layout of tables in text. A table is a match whose lines stand in a fixed order: what opens it,
a block for every arm, the case of no match, and what closes it; an arm is such a match around its
cases, and so is a case on a reference. Every block closes the brackets that it opens, and stands at
its level or further in.
-/

namespace DynamicOps

/-- The characters of a line: four spaces for every level, what is on the line, and a line feed. -/
def Line.characters (line : Line) : List Char :=
  List.replicate (4 * line.level) ' ' ++ line.text.toList ++ ['\n']

/-- The text is made of some lines, which have their only line feeds at their ends. -/
structure MadeOf (text : String) (lines : List Line) : Prop where
  eq : text.toList = lines.flatMap Line.characters
  single : ∀ line ∈ lines, '\n' ∉ line.text.toList

/-- The brackets that are open after some lines, from those before them. -/
def openAfterLines? (before : List Bracket) (lines : List Line) : Option (List Bracket) :=
  lines.foldlM (fun before line => openAfter? before line.text) before

/-- Some lines at a level or further in, in a certain number, that close every bracket they open. -/
structure Block (level count : Nat) (lines : List Line) : Prop where
  level_le : ∀ line ∈ lines, level ≤ line.level
  length_eq : lines.length = count
  closed : ∀ before, openAfterLines? before lines = some before

namespace Block

variable {level count more : Nat} {xs ys : List Line}

theorem line {text : String} (h : Inline text) : Block level 1 [⟨level, text⟩] where
  level_le := by simp
  length_eq := rfl
  closed before := by simp [openAfterLines?, h before]

theorem append (hxs : Block level count xs) (hys : Block level more ys)
    : Block level (count + more) (xs ++ ys) where
  level_le line h := (List.mem_append.mp h).elim (hxs.level_le line) (hys.level_le line)
  length_eq := by rw [List.length_append, hxs.length_eq, hys.length_eq]
  closed before := by
    rw [openAfterLines?, List.foldlM_append, ← openAfterLines?, hxs.closed]
    exact hys.closed before

/-- Blocks for the entries of a list are a block, by induction over the entries. -/
theorem flatten {α : Type} {size : α → Nat} {entries : List α} {blocks : List (List Line)}
    (h : List.Forall₂ (fun entry block => Block level (size entry) block) entries blocks)
    : Block level (entries.map size).sum blocks.flatten := by
  induction h with
  | nil => exact ⟨by simp, rfl, fun _ => rfl⟩
  | cons hblock _ ih => exact hblock.append ih

end Block

namespace Rendering

/-- The lines of a match: what opens it, its cases, the case of no match, and what closes it. -/
def matchLines (level : Nat) (opening closing : String) (cases : List Line) : List Line :=
  ⟨level, opening⟩ :: cases ++ [⟨level + 1, "_ => None,"⟩, ⟨level, closing⟩]

/-- The lines of a case at a level: its right pattern and its expression on one line, or a match on
the target of a reference.
-/
inductive CaseLines (op : Operator) (level : Nat) (lhs : Pattern) : Case → List Line → Prop
  | bare {rhs : Pattern} {b : Body} {inner expression : String}
    (hinner : pattern (if b = .swapped then "_" else "y") rhs = some inner)
    (hexpression : body op lhs rhs b = some expression)
    : CaseLines op level lhs ⟨rhs, b⟩ [⟨level, inner ++ " => " ++ expression ++ ","⟩]
  | reference {k : Kind} {b : Body} {expression : String}
    (hexpression : body op lhs (.refTo k) b = some expression)
    : CaseLines op level lhs ⟨.refTo k, b⟩
        (matchLines level "Value::Ref(r) => match r.target() \x7b" "\x7d,"
          [⟨level + 1, "Some(Value::" ++ k.variant ++ "(y)) => " ++ expression ++ ","⟩])

/-- The lines of an arm at a level: a match on the right operand with the lines of its cases. -/
inductive ArmLines (op : Operator) (level : Nat) : Arm → List Line → Prop
  | mk {lhs : Pattern} {cases : List Case} {outer : String} {blocks : List (List Line)}
    (houter : pattern "x" lhs = some outer)
    (hblocks : List.Forall₂ (CaseLines op (level + 1) lhs) cases blocks)
    : ArmLines op level ⟨lhs, cases⟩
        (matchLines level (outer ++ " => match rhs \x7b") "\x7d," blocks.flatten)

end Rendering

open Rendering

/-- The lines of a table at a level: a match on the left operand with the lines of its arms. -/
inductive Table.LaidOut (level : Nat) : Table → List Line → Prop
  | mk {op : Operator} {arms : List Arm} {blocks : List (List Line)}
    (hblocks : List.Forall₂ (ArmLines op (level + 1)) arms blocks)
    : LaidOut level ⟨op, arms⟩ (matchLines level "match lhs \x7b" "\x7d" blocks.flatten)

/-- The number of lines of a case. -/
def Case.lineCount (c : Case) : Nat :=
  match c.rhs with
  | .refTo _ => 4
  | _ => 1

/-- The number of lines of an arm. -/
def Arm.lineCount (a : Arm) : Nat :=
  3 + (a.cases.map Case.lineCount).sum

/-- The number of lines of a table. -/
def Table.lineCount (t : Table) : Nat :=
  3 + (t.arms.map Arm.lineCount).sum

/-- All elements of a list have results exactly when these are the results one by one, by induction
over the elements.
-/
theorem mapM_eq_some_iff {α β : Type} {f : α → Option β} {xs : List α} {ys : List β}
    : xs.mapM f = some ys ↔ List.Forall₂ (fun x y => f x = some y) xs ys := by
  induction xs generalizing ys with
  | nil => simp [eq_comm]
  | cons x xs ih =>
      cases ys with
      | nil => cases hx : f x <;> cases hxs : xs.mapM f <;> simp [List.mapM_cons, hx, hxs]
      | cons y ys =>
          rw [List.forall₂_cons, ← ih, List.mapM_cons]
          cases f x <;> cases xs.mapM f <;> simp

variable {op : Operator} {level : Nat} {lines : List Line}

namespace Rendering

theorem caseLines_of_case {lhs : Pattern} {c : Case} (h : case op level lhs c = some lines)
    : CaseLines op level lhs c lines := by
  obtain ⟨rhs, b⟩ := c
  obtain ⟨expression, hexpression, h⟩ := Option.bind_eq_some_iff.mp h
  cases rhs with
  | refTo k =>
      cases h
      exact .reference hexpression
  | scalar _ | array _ =>
      obtain ⟨inner, hinner, h⟩ := Option.bind_eq_some_iff.mp h
      cases h
      exact .bare hinner hexpression

theorem armLines_of_arm {a : Arm} (h : arm op level a = some lines)
    : ArmLines op level a lines := by
  obtain ⟨outer, houter, h⟩ := Option.bind_eq_some_iff.mp h
  obtain ⟨blocks, hblocks, h⟩ := Option.bind_eq_some_iff.mp h
  cases h
  exact .mk houter ((mapM_eq_some_iff.mp hblocks).imp fun _ _ => caseLines_of_case)

end Rendering

theorem Table.laidOut_of_lines? {t : Table} (h : t.lines? level = some lines)
    : t.LaidOut level lines := by
  obtain ⟨blocks, hblocks, h⟩ := Option.bind_eq_some_iff.mp h
  cases h
  exact .mk ((mapM_eq_some_iff.mp hblocks).imp fun _ _ => armLines_of_arm)

theorem block_matchLines {count : Nat} {opening closing : String} {cases : List Line}
    (hopening : ∀ before, openAfter? before opening = some (.curly :: before))
    (hclosing : ∀ before, openAfter? (.curly :: before) closing = some before)
    (h : Block (level + 1) count cases)
    : Block level (3 + count) (matchLines level opening closing cases) where
  level_le := by
    have hcases (line : Line) (hline : line ∈ cases) : level ≤ line.level :=
      Nat.le_of_succ_le (h.level_le line hline)
    simpa [matchLines, or_imp, forall_and] using hcases
  length_eq := by
    simp only [matchLines, List.length_cons, List.length_append, List.length_nil,
      h.length_eq]
    omega
  closed before := by
    have hnone (opened : List Bracket) : openAfter? opened "_ => None," = some opened := rfl
    have hcases := h.closed (.curly :: before)
    rw [openAfterLines?] at hcases ⊢
    simp [matchLines, hopening, hcases, hnone, hclosing]

namespace Rendering

theorem CaseLines.block {lhs : Pattern} {c : Case} (h : CaseLines op level lhs c lines)
    : Block level c.lineCount lines := by
  cases h with
  | @bare rhs b inner expression hinner hexpression =>
      have hbind : Inline (if b = .swapped then "_" else "y") := by
        split <;> exact fun _ => rfl
      have hcount : Case.lineCount ⟨rhs, b⟩ = 1 := by
        rcases rhs with k | k | k
        · rfl
        · cases hinner
        · rfl
      rw [hcount]
      refine .line fun before => ?_
      simp only [openAfter?_append, inline_pattern hbind hinner _, inline_body hexpression _]
      rfl
  | @reference k b expression hexpression =>
      refine block_matchLines (fun _ => rfl) (fun _ => rfl) (.line fun before => ?_)
      simp only [openAfter?_append, k.inline_variant _, inline_body hexpression _]
      rfl

theorem ArmLines.block {a : Arm} (h : ArmLines op level a lines)
    : Block level a.lineCount lines := by
  cases h with
  | @mk lhs cases outer blocks houter hblocks =>
      have houter : Inline outer := inline_pattern (fun _ => rfl) houter
      refine block_matchLines (fun before => ?_) (fun _ => rfl) ?_
      · simp only [openAfter?_append, houter _]
        rfl
      · exact .flatten (hblocks.imp fun _ _ => CaseLines.block)

end Rendering

theorem Table.LaidOut.block {t : Table} (h : t.LaidOut level lines)
    : Block level t.lineCount lines := by
  cases h with
  | mk hblocks =>
      refine block_matchLines (fun _ => rfl) (fun _ => rfl) ?_
      exact .flatten (hblocks.imp fun _ _ => ArmLines.block)

theorem Line.toList_render (line : Line) : line.render.toList = line.characters := by
  simp [render, characters]

theorem read_spaces (n : Nat) (before : List Bracket)
    : (List.replicate n ' ').foldlM Bracket.read before = some before := by
  induction n with
  | zero => rfl
  | succ n ih =>
      rw [List.replicate_succ, List.foldlM_cons]
      exact ih

theorem Line.read_characters {line : Line} {before after : List Bracket}
    (h : line.text.toList.foldlM Bracket.read before = some after)
    : line.characters.foldlM Bracket.read before = some after := by
  rw [characters, List.foldlM_append, List.foldlM_append, read_spaces]
  simp only [Option.bind_eq_bind, Option.bind_some, h]
  rfl

/-- What lines do to the open brackets, the text made of them does, and no line has a line feed
inside. By induction over the lines.
-/
theorem read_of_lines {before after : List Bracket}
    (h : openAfterLines? before lines = some after)
    : (∀ line ∈ lines, '\n' ∉ line.text.toList)
      ∧ (lines.flatMap Line.characters).foldlM Bracket.read before = some after := by
  induction lines generalizing before with
  | nil => exact ⟨by simp, h⟩
  | cons line lines ih =>
      obtain ⟨between, hline, h⟩ := Option.bind_eq_some_iff.mp h
      obtain ⟨hsingle, hread⟩ := read_of_openAfter? hline
      obtain ⟨hsingles, hreads⟩ := ih h
      refine ⟨List.forall_mem_cons.mpr ⟨hsingle, hsingles⟩, ?_⟩
      rw [List.flatMap_cons, List.foldlM_append, Line.read_characters hread]
      exact hreads

theorem toList_join_render (lines : List Line)
    : (String.join (lines.map Line.render)).toList = lines.flatMap Line.characters := by
  simp only [String.toList_join, List.flatMap_map, Line.toList_render]

theorem Block.madeOf {count : Nat} (h : Block level count lines)
    : MadeOf (String.join (lines.map Line.render)) lines :=
  ⟨toList_join_render lines, (read_of_lines (h.closed [])).1⟩

theorem Block.nested {count : Nat} (h : Block level count lines)
    : Nested (String.join (lines.map Line.render)).toList := by
  rw [toList_join_render, nested_iff]
  exact (read_of_lines (h.closed [])).2

/-- A table that has a text at some indentation has one at every indentation. The brackets of the
text are nested, no line stands further out than the indentation, and the lines are those of the
arms and their cases in order: three for the table and for each arm, and one or four for a case.
-/
theorem rendered_tables_well_formed {t : Table} {m : Nat} (h : (t.render? m).isSome = true)
    (n : Nat)
    : ∃ text lines,
        t.render? n = some text
        ∧ MadeOf text lines
        ∧ Nested text.toList
        ∧ (∀ line ∈ lines, n ≤ line.level)
        ∧ t.LaidOut n lines
        ∧ lines.length = t.lineCount := by
  have hrenders : (t.render? n).isSome = true :=
    Table.isSome_render?_iff_renderable.mpr (Table.isSome_render?_iff_renderable.mp h)
  obtain ⟨text, htext⟩ := Option.isSome_iff_exists.mp hrenders
  obtain ⟨lines, hlines, rfl⟩ := Option.map_eq_some_iff.mp htext
  have hlaidOut : t.LaidOut n lines := Table.laidOut_of_lines? hlines
  have hblock : Block n t.lineCount lines := hlaidOut.block
  exact ⟨_, lines, htext, hblock.madeOf, hblock.nested, hblock.level_le, hlaidOut,
    hblock.length_eq⟩

/-- A table need not pass verification for this, and an arm may be empty. -/
theorem rendered_tables_well_formed_unverified
    : (Table.render? ⟨.compute .subtract,
          [⟨.scalar .text, [⟨.refTo .bool, .concat⟩]⟩, ⟨.array .any, []⟩]⟩ 0).isSome = true
      ∧ ∃ text lines,
          Table.render? ⟨.compute .subtract,
              [⟨.scalar .text, [⟨.refTo .bool, .concat⟩]⟩, ⟨.array .any, []⟩]⟩ 2
            = some text
          ∧ MadeOf text lines
          ∧ Nested text.toList
          ∧ (∀ line ∈ lines, 2 ≤ line.level)
          ∧ lines.length = 13 := by
  have hrenders : (Table.render? ⟨.compute .subtract,
      [⟨.scalar .text, [⟨.refTo .bool, .concat⟩]⟩, ⟨.array .any, []⟩]⟩ 0).isSome = true := rfl
  obtain ⟨text, lines, htext, hmade, hnested, hlevel, -, hlength⟩ :=
    rendered_tables_well_formed hrenders 2
  exact ⟨hrenders, text, lines, htext, hmade, hnested, hlevel, hlength⟩

end DynamicOps
